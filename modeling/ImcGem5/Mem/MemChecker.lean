import ImcGem5.Lib.Containers
import ImcGem5.Lib.Runs
import ImcGem5.Mem.PacketQueue

/-! The memory checker on one byte: it keeps the reads that are outstanding, what completed
reads have observed, and clusters of writes that overlap, and decides of each completed read
whether a memory could have answered so. Resets are left out. -/

namespace ImcGem5.Mem
open Lib

abbrev Serial := Nat

/-- MaxTick -/
def TICK_FUTURE : Tick := maxTick
def TICK_INITIAL : Tick := 0

structure Transaction where
  serial : Serial
  start : Tick
  complete : Tick
  data : Byte := 0
  deriving DecidableEq, Repr

structure WriteCluster where
  start : Tick := TICK_FUTURE
  complete : Tick := TICK_FUTURE
  writes : List Transaction := []
  completeMax : Tick := TICK_INITIAL
  numIncomplete : Int := 0
  deriving DecidableEq, Repr

namespace WriteCluster

def isComplete (cluster : WriteCluster) : Bool := cluster.complete != TICK_FUTURE

def startWrite (cluster : WriteCluster) (serial : Serial) (start : Tick) (data : Byte) : Except Abort WriteCluster := do
  require (!cluster.isComplete) "!isComplete()"
  let first := if cluster.start = TICK_FUTURE then start else cluster.start
  require (decide (first ≤ start)) "WriteClusters must filled in order!"
  if cluster.complete ≠ TICK_FUTURE then require (decide (start < cluster.complete)) "_start < complete"
  return { cluster with
    start := first
    complete := TICK_FUTURE
    numIncomplete := cluster.numIncomplete + 1
    writes := if cluster.writes.any (·.serial == serial) then cluster.writes
      else cluster.writes ++ [⟨serial, start, TICK_FUTURE, data⟩] }

/-- A write is looked up by its serial number. -/
def completeWrite (cluster : WriteCluster) (serial : Serial) (complete : Tick) : Except Abort WriteCluster := do
  match cluster.writes.find? (·.serial == serial) with
  | none => return cluster
  | some write =>
    require (write.complete == TICK_FUTURE) "it->second.complete == TICK_FUTURE"
    let completeMax := if cluster.completeMax < complete then complete else cluster.completeMax
    return { cluster with
      writes := cluster.writes.map fun other => if other.serial = serial then { other with complete } else other
      completeMax
      numIncomplete := cluster.numIncomplete - 1
      complete := if cluster.numIncomplete - 1 = 0 then completeMax else cluster.complete }

def abortWrite (cluster : WriteCluster) (serial : Serial) : WriteCluster :=
  if cluster.writes.any (·.serial == serial) then
    let writes := cluster.writes.filter (·.serial != serial)
    { cluster with
      writes
      numIncomplete := cluster.numIncomplete - 1
      complete := if cluster.numIncomplete - 1 = 0 ∧ writes ≠ [] then cluster.completeMax else cluster.complete }
  else cluster

end WriteCluster

/-- Scanning from the back of a container, which is given turned around, for the last entry
before a tick: this entry, or the first one, and all that come after it. -/
def lastCompletedTransaction {α : Type} (complete : α → Tick) (before : Tick) : List α → List α → List α
  | [], later => later
  | [first], later => first :: later
  | entry :: earlier, later =>
    if before ≤ complete entry then lastCompletedTransaction complete before earlier (entry :: later) else entry :: later

structure ByteTracker where
  outstandingReads : List (Serial × Transaction) := []
  readObservations : List Transaction := [⟨0, TICK_INITIAL, TICK_INITIAL, 0⟩]
  writeClusters : List WriteCluster := []
  lastExpectedData : List Byte := []

/-- What inExpectedData has gathered. -/
structure Scan where
  expected : List Byte := []
  wcOverlap : Bool := true
  lastObsValid : Bool

namespace ByteTracker

def startRead (tracker : ByteTracker) (serial : Serial) (start : Tick) : ByteTracker :=
  { tracker with
    outstandingReads := if tracker.outstandingReads.any (·.1 == serial) then tracker.outstandingReads
      else assign serial ⟨serial, start, TICK_FUTURE, 0⟩ tracker.outstandingReads }

def scanWrites (lastObs : Transaction) (start : Tick) (data : Byte) : List Transaction → Scan → Except (List Byte) Scan
  | [], scan => .ok scan
  | write :: writes, scan =>
    if write.complete < lastObs.start then scanWrites lastObs start data writes scan
    else if write.data = data then .error scan.expected
    else
      let scan := { scan with expected := scan.expected ++ [write.data] }
      if start < write.complete then scanWrites lastObs start data writes scan
      else scanWrites lastObs start data writes { scan with
        wcOverlap := false
        lastObsValid := if lastObs.complete < write.start then false else scan.lastObsValid }

/-- The outer loop, over the clusters from the last to the first. -/
def scanClusters (lastObs : Transaction) (start : Tick) (data : Byte) : List WriteCluster → Scan → Except (List Byte) Scan
  | [], scan => .ok scan
  | cluster :: clusters, scan =>
    if scan.wcOverlap then do
      let scan ← scanWrites lastObs start data cluster.writes scan
      scanClusters lastObs start data clusters scan
    else .ok scan

/-- The second half of inExpectedData: no write has matched, and other sources of confirmation
are checked. -/
def otherSources (tracker : ByteTracker) (lastObs : Transaction) (start complete : Tick) (data : Byte) (scan : Scan) :
    Except Abort (List Byte × Bool) := do
  if scan.lastObsValid then
    require (decide (lastObs.complete ≤ start)) "last_obs.complete <= start"
    if lastObs.data = data then return (scan.expected, true) else return (scan.expected ++ [lastObs.data], false)
  else
    match tracker.writeClusters.head?, tracker.writeClusters.getLast?, scan.wcOverlap with
    | some first, some last, true =>
      require (decide (first.start < complete) && decide (start < last.complete))
        "writeClusters.begin()->start < complete && writeClusters.rbegin()->complete > start"
      return (scan.expected, true)
    | _, _, _ =>
      if scan.expected = [] then
        require (lastObs.complete == TICK_INITIAL) "last_obs.complete == TICK_INITIAL"
        return (scan.expected, true)
      else return (scan.expected, false)

/-- inExpectedData, with the data that it has come to expect. -/
def inExpectedData (tracker : ByteTracker) (start complete : Tick) (data : Byte) : Except Abort (List Byte × Bool) := do
  match lastCompletedTransaction Transaction.complete start tracker.readObservations.reverse [] with
  | [] => .error (.assertion "!l->empty()")
  | lastObs :: _ =>
    match scanClusters lastObs start data tracker.writeClusters.reverse { lastObsValid := lastObs.complete != TICK_INITIAL } with
    | .error expected => return (expected, true)
    | .ok scan => tracker.otherSources lastObs start complete data scan

def pruneTransactions (tracker : ByteTracker) (curTick : Tick) : Except Abort ByteTracker := do
  let before := ((tracker.outstandingReads.head?.map fun first => first.2.start).getD curTick)
  require (!tracker.readObservations.isEmpty) "!l->empty()"
  return { tracker with
    readObservations := lastCompletedTransaction Transaction.complete before tracker.readObservations.reverse []
    writeClusters := lastCompletedTransaction WriteCluster.complete before tracker.writeClusters.reverse [] }

def completeRead (tracker : ByteTracker) (serial : Serial) (complete : Tick) (data : Byte) : Except Abort (ByteTracker × Bool) := do
  match tracker.outstandingReads.find? (·.1 == serial) with
  | none => return (tracker, true)
  | some (_, read) =>
    let tracker := { tracker with outstandingReads := tracker.outstandingReads.filter (·.1 != serial) }
    let observation : Transaction := ⟨serial, read.start, complete, data⟩
    let (lastExpectedData, result) ← tracker.inExpectedData read.start complete data
    let tracker ← pruneTransactions { tracker with
      lastExpectedData
      readObservations := tracker.readObservations ++ [observation] } complete
    return (tracker, result)

/-- getIncompleteWriteCluster, as the clusters before the one it returns, and that one. -/
def getIncompleteWriteCluster (tracker : ByteTracker) : List WriteCluster × WriteCluster :=
  match tracker.writeClusters.getLast? with
  | none => ([], {})
  | some last => if last.isComplete then (tracker.writeClusters, {}) else (tracker.writeClusters.dropLast, last)

def startWrite (tracker : ByteTracker) (serial : Serial) (start : Tick) (data : Byte) : Except Abort ByteTracker := do
  let (earlier, cluster) := tracker.getIncompleteWriteCluster
  let cluster ← cluster.startWrite serial start data
  return { tracker with writeClusters := earlier ++ [cluster] }

def completeWrite (tracker : ByteTracker) (serial : Serial) (complete : Tick) : Except Abort ByteTracker := do
  let (earlier, cluster) := tracker.getIncompleteWriteCluster
  let cluster ← cluster.completeWrite serial complete
  pruneTransactions { tracker with writeClusters := earlier ++ [cluster] } complete

def abortWrite (tracker : ByteTracker) (serial : Serial) : ByteTracker :=
  let (earlier, cluster) := tracker.getIncompleteWriteCluster
  { tracker with writeClusters := earlier ++ [cluster.abortWrite serial] }

end ByteTracker

inductive CheckEvent where
  | startRead (serial : Serial)
  | completeRead (serial : Serial) (data : Byte)
  | startWrite (serial : Serial) (data : Byte)
  | completeWrite (serial : Serial)
  | abortWrite (serial : Serial)
  deriving DecidableEq, Repr

structure CheckCall where
  now : Tick
  event : CheckEvent
  deriving DecidableEq, Repr

/-- A step, with the answer to a read that completes. -/
def ByteTracker.step : Step ByteTracker CheckCall Bool Abort := fun tracker call =>
  match call.event with
  | .startRead serial => .ok (tracker.startRead serial call.now, [])
  | .completeRead serial data => do
    let (tracker, result) ← tracker.completeRead serial call.now data
    return (tracker, [result])
  | .startWrite serial data => do
    let tracker ← tracker.startWrite serial call.now data
    return (tracker, [])
  | .completeWrite serial => do
    let tracker ← tracker.completeWrite serial call.now
    return (tracker, [])
  | .abortWrite serial => .ok (tracker.abortWrite serial, [])

end ImcGem5.Mem
