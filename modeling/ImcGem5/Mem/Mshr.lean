import ImcGem5.Lib.Runs
import ImcGem5.Mem.Packet

/-! Miss status holding registers: the requests and deferred snoops that wait for one
block of a cache. The queue of registers, printing and statistics are left out. -/

namespace ImcGem5.Mem
open Lib

namespace MemCmd

def isUpgrade (cmd : MemCmd) : Bool := cmd.testCmdAttrib .isUpgrade

end MemCmd

namespace Request

def isUncacheable (req : Request) : Bool := req.flags.isSet BaseFlag.uncacheable.bits
def isCacheInvalidate (req : Request) : Bool := req.flags.isSet BaseFlag.invalidate.bits
def isCacheMaintenance (req : Request) : Bool := req.flags.isSet (BaseFlag.clean.bits ||| BaseFlag.invalidate.bits)

end Request

namespace Packet

def isUpgrade (pkt : Packet) : Bool := pkt.cmd.isUpgrade
def hasRespData (pkt : Packet) : Bool := pkt.cmd.responseCommand.hasData
def getOffset (pkt : Packet) (blkSize : Nat) : Nat := (pkt.addr &&& BitVec.ofNat 64 (blkSize - 1)).toNat

/-- Packet(pkt, true, true): a copy without flags, and with a buffer of its own. -/
def copy (pkt : Packet) : Packet :=
  { pkt with
    cacheResponding := false, expressSnoop := false, responderHadWritable := false, satisfied := false, blockCached := false
    writeThrough := false, snoopDelay := 0 }

/-- Packet(req, cmd, blkSize, id), with a copy of the request. -/
def ofBlock (pkt : Packet) (blkSize : Nat) : Packet :=
  { cmd := pkt.cmd, req := pkt.req, addr := pkt.req.paddr &&& ~~~BitVec.ofNat 64 (blkSize - 1), size := blkSize
    isSecure := pkt.req.isSecure, data := [], id := pkt.id }

end Packet

/-- MSHR::Target::Source -/
inductive Source where
  | fromCPU
  | fromSnoop
  | fromPrefetcher
  deriving DecidableEq, Repr

/-- `above` is the MSHR found on the packet's stack of sender states. -/
structure Target where
  pkt : Packet
  above : Option Nat
  readyTime : Tick
  order : Nat
  source : Source
  markedPending : Bool
  allocOnFill : Bool

structure TargetList where
  list : List Target := []
  blkSize : Nat := 0
  needsWritable : Bool := false
  hasUpgrade : Bool := false
  allocOnFill : Bool := false
  hasFromCache : Bool := false
  canMergeWrites : Bool := true
  writesBitmap : List Bool := []

/-- The flags downstreamPending of the MSHRs above. -/
abbrev PendingAbove := Nat → Bool

namespace TargetList

def resetFlags (targets : TargetList) : TargetList :=
  { targets with
    canMergeWrites := true, writesBitmap := targets.writesBitmap.map fun _ => false
    needsWritable := false, hasUpgrade := false, allocOnFill := false, hasFromCache := false }

/-- `writesBitmap.resize(blk_size)` keeps what fits; the flags are reset right after. -/
def init (targets : TargetList) (blkSize : Nat) : TargetList :=
  resetFlags { targets with blkSize, writesBitmap := List.replicate blkSize false }

def isReset (targets : TargetList) : Bool :=
  !targets.needsWritable && !targets.hasUpgrade && !targets.allocOnFill && !targets.hasFromCache && targets.canMergeWrites

def isWholeLineWrite (targets : TargetList) : Bool := targets.writesBitmap.all id

def noMergeFlags : BitVec 64 :=
  BaseFlag.uncacheable.bits ||| BaseFlag.strictOrder.bits ||| BaseFlag.privileged.bits ||| BaseFlag.llsc.bits ||| BaseFlag.memSwap.bits |||
    BaseFlag.memSwapCond.bits ||| BaseFlag.secure.bits ||| BaseFlag.lockedRMW.bits

/-- `first` says whether the list was empty. -/
def updateWriteFlags (targets : TargetList) (first : Bool) (pkt : Packet) : TargetList :=
  if targets.isWholeLineWrite then targets
  else if !targets.canMergeWrites then targets
  else if !pkt.isWrite then { targets with canMergeWrites := false }
  else
    let compat := !pkt.req.flags.isSet noMergeFlags
    let offset := pkt.getOffset targets.blkSize
    let written :=
      if !pkt.isMaskedWrite && (first || compat) then
        targets.writesBitmap.mapIdx fun i old => old || (decide (offset ≤ i) && decide (i < offset + pkt.size))
      else targets.writesBitmap
    { targets with writesBitmap := written, canMergeWrites := compat }

def updateFlags (targets : TargetList) (first : Bool) (pkt : Packet) (source : Source) (allocOnFill : Bool) : TargetList :=
  if source = .fromSnoop then targets
  else
    let targets :=
      { targets with
        needsWritable := targets.needsWritable || pkt.needsWritable
        hasUpgrade := targets.hasUpgrade || pkt.isUpgrade || pkt.cmd == .storeCondReq
        allocOnFill := targets.allocOnFill || allocOnFill }
    if source = .fromPrefetcher then targets
    else updateWriteFlags { targets with hasFromCache := targets.hasFromCache || pkt.fromCache } first pkt

/-- The list is whole while its flags are computed anew. -/
def populateFlags (targets : TargetList) : TargetList :=
  targets.list.foldl (fun flags target => flags.updateFlags targets.list.isEmpty target.pkt target.source target.allocOnFill) targets.resetFlags

/-- An MSHR above is told that its request is buffered here, once. -/
def markAbove (above : PendingAbove) (mshr : Option Nat) (markPending : Bool) : Except Abort (PendingAbove × Bool) :=
  match mshr, markPending with
  | some mshr, true => do
    require (!above mshr) "!mshr->downstreamPending"
    return (Function.update above mshr true, true)
  | _, _ => .ok (above, false)

def add (targets : TargetList) (above : PendingAbove) (target : Target) : Except Abort (TargetList × PendingAbove) := do
  let (above, markedPending) ← markAbove above target.above target.markedPending
  let flagged := targets.updateFlags targets.list.isEmpty target.pkt target.source target.allocOnFill
  return ({ flagged with list := targets.list ++ [{ target with markedPending }] }, above)

end TargetList

def replacedCmd : MemCmd → MemCmd
  | .upgradeReq => .readExReq
  | .scUpgradeReq => .scUpgradeFailReq
  | .storeCondReq => .storeCondFailReq
  | cmd => cmd

/-- What a fresh buffer holds is never read. -/
def replaceUpgrade (pkt : Packet) : Except Abort Packet := do
  let hasData := pkt.hasData || pkt.hasRespData
  let replaced := { pkt with cmd := replacedCmd pkt.cmd }
  if hasData then return replaced
  else
    require (!replaced.hasData) "!pkt->hasData()"
    return if replaced.hasRespData then { replaced with data := List.replicate pkt.size 0 } else replaced

namespace TargetList

def replaceEach : List Target → Except Abort (List Target)
  | [] => .ok []
  | target :: rest => do
    let pkt ← replaceUpgrade target.pkt
    let rest ← replaceEach rest
    return { target with pkt } :: rest

def replaceUpgrades (targets : TargetList) : Except Abort TargetList :=
  if !targets.hasUpgrade then .ok targets
  else do
    let list ← replaceEach targets.list
    return { targets with list, hasUpgrade := false }

/-- MSHR::clearDownstreamPending on the MSHR above. -/
def clearAbove (above : PendingAbove) : Option Nat → Except Abort PendingAbove
  | none => .ok above
  | some mshr => do
    require (above mshr) "downstreamPending"
    return Function.update above mshr false

def clearEach (above : PendingAbove) : List Target → Except Abort (List Target × PendingAbove)
  | [] => .ok ([], above)
  | target :: rest => do
    let cleared ← (if target.markedPending then clearAbove above target.above else .ok above)
    let (rest, above) ← clearEach cleared rest
    return ({ target with markedPending := false } :: rest, above)

def trySatisfyFunctional (targets : TargetList) (pkt : Packet) : Except Abort (Bool × Packet × TargetList) := do
  let (found, pkt, list) ← pkt.satisfyFrom Target.pkt (fun target pkt => { target with pkt }) targets.list
  return (found, pkt, { targets with list })

end TargetList

structure MSHR where
  blkSize : Nat := 0
  readyTime : Tick := 0
  order : Nat := 0
  inService : Bool := false
  downstreamPending : Bool := false
  pendingModified : Bool := false
  postInvalidate : Bool := false
  postDowngrade : Bool := false
  wasWholeLineWrite : Bool := false
  isForward : Bool := false
  targets : TargetList := {}
  deferredTargets : TargetList := {}
  above : PendingAbove := fun _ => false

/-- What an operation tells: a target was added, targets were extracted, or a snoop was
answered. -/
inductive MshrLabel where
  | added (target : Target)
  | extracted (targets : List Target)
  | snooped (willRespond satisfied hasSharers : Bool)
  | deallocated

namespace MSHR

def front (targets : TargetList) : Except Abort Target :=
  match targets.list with
  | [] => .error .outOfBounds
  | target :: _ => .ok target

def allocate (mshr : MSHR) (blkSize : Nat) (pkt : Packet) (above : Option Nat) (whenReady : Tick) (order : Nat) (allocOnFill : Bool) :
    Except Abort (MSHR × List MshrLabel) := do
  let source := if pkt.cmd = .hardPFReq then Source.fromPrefetcher else .fromCPU
  let target : Target := { pkt, above, readyTime := whenReady, order, source, markedPending := true, allocOnFill }
  let (targets, pending) ← (mshr.targets.init blkSize).add mshr.above target
  return ({ mshr with
    blkSize, readyTime := whenReady, order, isForward := false, wasWholeLineWrite := false, inService := false, downstreamPending := false
    targets, deferredTargets := mshr.deferredTargets.init blkSize, above := pending }, [.added target])

/-- All targets, or those of a range, let go of the MSHRs above. -/
def clearTargets (mshr : MSHR) : Except Abort MSHR := do
  let (list, above) ← TargetList.clearEach mshr.above mshr.targets.list
  return { mshr with targets := { mshr.targets with list }, above }

def clearDownstreamPending (mshr : MSHR) : Except Abort MSHR := do
  require mshr.downstreamPending "downstreamPending"
  clearTargets { mshr with downstreamPending := false }

def markInService (mshr : MSHR) (pendingModifiedResp : Bool) : Except Abort MSHR := do
  require (!mshr.inService) "!inService"
  let mshr :=
    { mshr with
      inService := true, pendingModified := mshr.targets.needsWritable || pendingModifiedResp, postInvalidate := false, postDowngrade := false }
  let mshr ← (if mshr.downstreamPending then .ok mshr else mshr.clearTargets)
  return { mshr with wasWholeLineWrite := mshr.targets.isWholeLineWrite }

/-- MSHRQueue::markPending -/
def markPending (mshr : MSHR) : Except Abort MSHR := do
  require mshr.inService "mshr->inService"
  return { mshr with inService := false }

def deallocate (mshr : MSHR) : Except Abort MSHR := do
  require mshr.targets.list.isEmpty "targets.empty()"
  require mshr.deferredTargets.isReset "deferredTargets.isReset()"
  return { mshr with targets := mshr.targets.resetFlags, inService := false }

def defers (mshr : MSHR) (first pkt : Packet) : Bool :=
  pkt.req.isCacheMaintenance || first.req.isCacheMaintenance || !mshr.deferredTargets.list.isEmpty ||
    (mshr.inService && (mshr.postInvalidate || (pkt.needsWritable && (!mshr.pendingModified || mshr.postDowngrade || mshr.isForward))))

def allocateTarget (mshr : MSHR) (pkt : Packet) (above : Option Nat) (whenReady : Tick) (order : Nat) (allocOnFill : Bool) :
    Except Abort (MSHR × List MshrLabel) := do
  require (pkt.cmd != .hardPFReq) "pkt->cmd != MemCmd::HardPFReq"
  let first ← front mshr.targets
  if mshr.defers first.pkt pkt then
    let pkt ← (if mshr.inService && mshr.postInvalidate then replaceUpgrade pkt else .ok pkt)
    let target : Target := { pkt, above, readyTime := whenReady, order, source := .fromCPU, markedPending := true, allocOnFill }
    let (deferredTargets, pending) ← mshr.deferredTargets.add mshr.above target
    return ({ mshr with deferredTargets, above := pending }, [.added target])
  else
    let target : Target := { pkt, above, readyTime := whenReady, order, source := .fromCPU, markedPending := !mshr.inService, allocOnFill }
    let (targets, pending) ← mshr.targets.add mshr.above target
    return ({ mshr with targets, above := pending }, [.added target])

/-- The part of handleSnoop that saves a snoop to replay it. -/
def saveSnoop (mshr : MSHR) (pkt : Packet) (above : Option Nat) (order : Nat) (curTick : Tick) (willRespond : Bool) :
    Except Abort (MSHR × List MshrLabel) := do
  let saved := if willRespond then pkt.copy else pkt.ofBlock mshr.blkSize
  let target : Target :=
    { pkt := saved, above := if willRespond then above else none, readyTime := curTick, order, source := .fromSnoop
      markedPending := mshr.downstreamPending && mshr.targets.needsWritable, allocOnFill := false }
  let (targets, pending) ← mshr.targets.add mshr.above target
  return ({ mshr with targets, above := pending, postInvalidate := mshr.postInvalidate || pkt.needsWritable || pkt.isInvalidate }, [.added target])

/-- The request of this MSHR precedes the one snooped. -/
def snoopLater (mshr : MSHR) (pkt : Packet) (above : Option Nat) (order : Nat) (curTick : Tick) : Except Abort (MSHR × List MshrLabel) := do
  let willRespond := mshr.pendingModified && pkt.needsResponse && !pkt.isClean
  let (mshr', labels) ←
    (if mshr.pendingModified || pkt.isInvalidate then mshr.saveSnoop pkt above order curTick willRespond else .ok (mshr, []))
  let shared := !pkt.needsWritable && !pkt.req.isUncacheable
  return ({ mshr' with postDowngrade := mshr'.postDowngrade || shared },
    labels ++ [.snooped willRespond (!willRespond && mshr.pendingModified && pkt.isClean) shared])

def replaceDeferred (mshr : MSHR) : Except Abort MSHR := do
  let deferredTargets ← mshr.deferredTargets.replaceUpgrades
  return { mshr with deferredTargets }

/-- Every buffered upgrade becomes a read for ownership. -/
def replaceAll (mshr : MSHR) : Except Abort MSHR := do
  let targets ← mshr.targets.replaceUpgrades
  replaceDeferred { mshr with targets }

def handleSnoop (mshr : MSHR) (pkt : Packet) (above : Option Nat) (order : Nat) (curTick : Tick) : Except Abort (MSHR × List MshrLabel) := do
  panicIf (pkt.needsWritable != pkt.isInvalidate && !pkt.req.isCacheMaintenance) "needsWritable does not match isInvalidate"
  let invalidates := pkt.needsWritable || pkt.req.isCacheInvalidate
  if !mshr.inService || (pkt.expressSnoop && mshr.downstreamPending) then
    let mshr ← (if invalidates then mshr.replaceAll else .ok mshr)
    return (mshr, [.snooped false false false])
  else
    let mshr ← (if invalidates then mshr.replaceDeferred else .ok mshr)
    let first ← front mshr.targets
    if mshr.postInvalidate || first.pkt.req.isCacheInvalidate then return (mshr, [.snooped true false false])
    else mshr.snoopLater pkt above order curTick

/-- The loop that takes the snoops out and leaves the requests of processors. -/
def takeSnoops : List Target → Except Abort (List Target × List Target)
  | [] => .ok ([], [])
  | target :: rest =>
    if target.source = .fromCPU then do
      let (taken, left) ← takeSnoops rest
      return (taken, target :: left)
    else do
      require (decide (target.source = .fromSnoop)) "it->source == Target::FromSnoop"
      let (taken, left) ← takeSnoops rest
      return (target :: taken, left)

/-- A response that invalidates serves the first request and the snoops. -/
def takeFirst : List Target → Except Abort (List Target × List Target)
  | [] => .error .outOfBounds
  | target :: rest => do
    require (decide (target.source = .fromCPU ∨ target.source = .fromPrefetcher)) "it->source == Target::FromCPU || it->source == Target::FromPrefetcher"
    if target.pkt.cmd = .lockedRMWReadReq then return ([target], target :: rest)
    else
      let (taken, left) ← takeSnoops rest
      return (target :: taken, left)

/-- Any other response serves all targets, up to a locked read. -/
def takeUnlocked : List Target → List Target × List Target
  | [] => ([], [])
  | target :: rest =>
    if target.pkt.cmd = .lockedRMWReadReq then ([target], target :: rest)
    else
      let (taken, left) := takeUnlocked rest
      (target :: taken, left)

def extractServiceableTargets (mshr : MSHR) (cmd : MemCmd) : Except Abort (MSHR × List MshrLabel) := do
  let (ready, left) ← (if cmd = .readRespWithInvalidate then takeFirst mshr.targets.list else .ok (takeUnlocked mshr.targets.list))
  return ({ mshr with targets := { mshr.targets with list := left }.populateFlags }, [.extracted ready])

/-- The targets to promote, and the ones that stay deferred. -/
def promotable (targets deferred : List Target) : List Target × List Target :=
  match deferred with
  | [] => ([], [])
  | first :: rest =>
    if first.pkt.req.isCacheMaintenance then
      if targets.isEmpty then ([first], rest) else ([], deferred)
    else deferred.span fun target => !target.pkt.req.isCacheMaintenance

def promoteDeferredTargets (mshr : MSHR) (curTick : Tick) : Except Abort (MSHR × Bool) :=
  if mshr.targets.list.isEmpty && mshr.deferredTargets.list.isEmpty then .ok (mshr, false)
  else do
    let (promoted, left) := promotable mshr.targets.list mshr.deferredTargets.list
    let deferredTargets := { mshr.deferredTargets with list := left }.populateFlags
    let targets := { mshr.targets with list := mshr.targets.list ++ promoted }.populateFlags
    let first ← front targets
    return ({ mshr with targets, deferredTargets, order := first.order, readyTime := max curTick first.readyTime }, true)

/-- The prefix of the deferred targets that satisfies a condition; each one asked has to
come from a processor. -/
def spanCPU (pred : Target → Bool) : List Target → Except Abort (List Target × List Target)
  | [] => .ok ([], [])
  | target :: rest => do
    require (decide (target.source = .fromCPU)) "t.source == Target::FromCPU"
    if pred target then
      let (taken, left) ← spanCPU pred rest
      return (target :: taken, left)
    else return ([], target :: rest)

def promoteIf (mshr : MSHR) (pred : Target → Bool) : Except Abort MSHR := do
  require (!mshr.downstreamPending) "!downstreamPending"
  let (taken, left) ← spanCPU pred mshr.deferredTargets.list
  let (promoted, above) ← TargetList.clearEach mshr.above taken
  return { mshr with
    targets := { mshr.targets with list := mshr.targets.list ++ promoted }
    deferredTargets := { mshr.deferredTargets with list := left }.populateFlags
    above }

def promoteReadable (mshr : MSHR) : Except Abort MSHR :=
  if mshr.deferredTargets.list.isEmpty then .ok mshr
  else do
    require mshr.inService "inService"
    if mshr.postInvalidate then return mshr
    else mshr.promoteIf fun target => !target.pkt.req.isCacheInvalidate && !target.pkt.needsWritable

def promoteWritable (mshr : MSHR) : Except Abort MSHR :=
  match mshr.deferredTargets.list with
  | [] => .ok mshr
  | first :: _ =>
    if !mshr.deferredTargets.needsWritable then .ok mshr
    else do
      require mshr.inService "inService"
      if mshr.postInvalidate || mshr.postDowngrade || first.pkt.req.isCacheInvalidate then return mshr
      else
        require (!mshr.targets.needsWritable) "!targets.needsWritable"
        { mshr with targets := { mshr.targets with needsWritable := true } }.promoteIf fun target => !target.pkt.req.isCacheInvalidate

/-- A print request is for the MSHR as a whole; `blkAddr` and `isSecure` are those of its entry. -/
def trySatisfyFunctional (mshr : MSHR) (blkAddr : Addr) (isSecure : Bool) (pkt : Packet) : Except Abort (Bool × Packet × MSHR) :=
  if pkt.cmd.isPrint then do
    let result ← pkt.trySatisfyData blkAddr isSecure mshr.blkSize none
    return (false, result.pkt, mshr)
  else do
    let (found, pkt, targets) ← mshr.targets.trySatisfyFunctional pkt
    if found then return (true, pkt, { mshr with targets })
    else
      let (found, pkt, deferredTargets) ← mshr.deferredTargets.trySatisfyFunctional pkt
      return (found, pkt, { mshr with targets, deferredTargets })

end MSHR

/-- The calls of a cache between allocate and deallocate. -/
inductive MshrOp where
  | allocateTarget (pkt : Packet) (above : Option Nat) (whenReady : Tick) (order : Nat) (allocOnFill : Bool)
  | forward (isForward : Bool)
  | markInService (pendingModifiedResp : Bool)
  | clearDownstreamPending
  | pendingBelow
  | handleSnoop (pkt : Packet) (above : Option Nat) (order : Nat) (curTick : Tick)
  | promoteReadable
  | promoteWritable
  | extractServiceableTargets (cmd : MemCmd)
  | promoteDeferredTargets (curTick : Tick)

def MSHR.promoteOrDeallocate (mshr : MSHR) (curTick : Tick) : Except Abort (MSHR × List MshrLabel) := do
  let (mshr, promoted) ← mshr.promoteDeferredTargets curTick
  if promoted then
    let mshr ← mshr.markPending
    return (mshr, [])
  else
    let mshr ← mshr.deallocate
    return (mshr, [.deallocated])

def MSHR.unlabelled (result : Except Abort MSHR) : Except Abort (MSHR × List MshrLabel) := do
  let mshr ← result
  return (mshr, [])

def MSHR.step : Step MSHR MshrOp MshrLabel Abort
  | mshr, .allocateTarget pkt above whenReady order allocOnFill => mshr.allocateTarget pkt above whenReady order allocOnFill
  | mshr, .forward isForward => .ok ({ mshr with isForward }, [])
  | mshr, .markInService pendingModifiedResp => MSHR.unlabelled (mshr.markInService pendingModifiedResp)
  | mshr, .clearDownstreamPending => MSHR.unlabelled mshr.clearDownstreamPending
  | mshr, .pendingBelow => .ok ({ mshr with downstreamPending := true }, [])
  | mshr, .handleSnoop pkt above order curTick => mshr.handleSnoop pkt above order curTick
  | mshr, .promoteReadable => MSHR.unlabelled mshr.promoteReadable
  | mshr, .promoteWritable => MSHR.unlabelled mshr.promoteWritable
  | mshr, .extractServiceableTargets cmd => mshr.extractServiceableTargets cmd
  | mshr, .promoteDeferredTargets curTick => mshr.promoteOrDeallocate curTick

/-- All that happens to an MSHR, which is allocated again and again. In between, its peers
above change what is pending there. -/
inductive MshrCall where
  | allocate (blkSize : Nat) (pkt : Packet) (above : Option Nat) (whenReady : Tick) (order : Nat) (allocOnFill : Bool)
  | others (above : PendingAbove)
  | op (op : MshrOp)

def MSHR.call : Step MSHR MshrCall MshrLabel Abort
  | mshr, .allocate blkSize pkt above whenReady order allocOnFill => mshr.allocate blkSize pkt above whenReady order allocOnFill
  | mshr, .others above => .ok ({ mshr with above }, [])
  | mshr, .op op => mshr.step op

end ImcGem5.Mem
