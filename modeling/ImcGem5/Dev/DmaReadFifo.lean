import ImcGem5.Lib.Ring
import ImcGem5.Lib.Runs
import ImcGem5.Mem.Layer

/-! The FIFO that a device fills by DMA, and the circular buffer under it. The callbacks of a
derived class are labels, and a fill that one of them starts is a call of its own. The port
is left out: it calls the event of a request when it has all the data. -/

namespace ImcGem5.Dev
open List Lib Mem

/-- `start` is a size_t that only a flush takes back, so that it may wrap. -/
structure CircleBuf (α : Type) where
  buffer : List α
  start : ℕ := 0
  used : ℕ := 0
  maxSize : ℕ

namespace CircleBuf

variable {α : Type}

def new [Inhabited α] (size : ℕ) : CircleBuf α where
  buffer := replicate size default
  maxSize := size

def flush (buf : CircleBuf α) : CircleBuf α :=
  { buf with
    start := 0
    used := 0 }

/-- `(start + offset) % maxSize` -/
def place (buf : CircleBuf α) (offset : ℕ) : Except Abort ℕ :=
  if buf.maxSize = 0 then .error .divideError else .ok ((buf.start + offset) % 2 ^ 64 % buf.maxSize)

/-- In the source the end `offset + len` is a sum of 64 bits; here it does not wrap. -/
def peek (buf : CircleBuf α) (offset len : ℕ) : Except Abort (List α) := do
  panicIf (decide (buf.used < offset + len)) "Trying to read past end of circular buffer."
  if len = 0 then
    return []
  else
    let next ← buf.place offset
    let toEnd := buf.buffer.length - next
    if toEnd < len then
      return buf.buffer.drop next ++ buf.buffer.take (len - toEnd)
    else
      return (buf.buffer.drop next).take len

def read (buf : CircleBuf α) (len : ℕ) : Except Abort (List α × CircleBuf α) := do
  let out ← buf.peek 0 len
  return (out, { buf with
    used := buf.used - len
    start := (buf.start + len) % 2 ^ 64 })

/-- What is left of write once the data is not larger than the buffer. -/
def writeFitting (buf : CircleBuf α) (data : List α) : Except Abort (CircleBuf α) := do
  let overflow := buf.used + data.length - buf.maxSize
  let next ← buf.place buf.used
  let toEnd := buf.buffer.length - next
  let buffer := if toEnd < data.length then
      Ring.copyAt (Ring.copyAt buf.buffer next (data.take toEnd)) 0 (data.drop toEnd)
    else Ring.copyAt buf.buffer next data
  return { buf with
    buffer
    used := buf.used + data.length - overflow
    start := (buf.start + overflow) % 2 ^ 64 }

def write (buf : CircleBuf α) (data : List α) : Except Abort (CircleBuf α) :=
  if data.isEmpty then .ok buf
  else if buf.maxSize < data.length then buf.flush.writeFitting (data.drop (data.length - buf.maxSize))
  else buf.writeFitting data

end CircleBuf

inductive BufOp (α : Type) where
  | write (data : List α)
  | read (len : ℕ)
  | peek (offset len : ℕ)
  | flush
  deriving DecidableEq, Repr

def CircleBuf.step {α : Type} : Step (CircleBuf α) (BufOp α) (List α) Abort := fun buf op => do
  match op with
  | .write data => return (← buf.write data, [])
  | .read len =>
    let (out, next) ← buf.read len
    return (next, [out])
  | .peek offset len => return (buf, [← buf.peek offset len])
  | .flush => return (buf.flush, [])

structure Fifo (α : Type) where
  buf : CircleBuf α

namespace Fifo

variable {α : Type}

def size (fifo : Fifo α) : ℕ := fifo.buf.used

def capacity (fifo : Fifo α) : ℕ := fifo.buf.maxSize

def flush (fifo : Fifo α) : Fifo α := ⟨fifo.buf.flush⟩

def read (fifo : Fifo α) (len : ℕ) : Except Abort (List α × Fifo α) := do
  let (out, buf) ← fifo.buf.read len
  return (out, ⟨buf⟩)

def write (fifo : Fifo α) (data : List α) : Except Abort (Fifo α) := do
  panicIf (decide (fifo.capacity < fifo.size + data.length)) "Trying to overfill FIFO buffer."
  let buf ← fifo.buf.write data
  return ⟨buf⟩

end Fifo

/-- `bypassCaches` is the mode of the system. The sizes are far from the end of their types. -/
structure DmaReadFifoParams where
  fifoSize : ℕ
  maxReqSize : ℕ
  maxPending : ℕ
  cacheLineSize : ℕ := 64
  bypassCaches : Bool := false

/-- An event with the address that the port was given along with it. -/
structure DmaDoneEvent (α : Type) where
  addr : Addr
  requestSize : ℕ
  done : Bool := false
  canceled : Bool := false
  data : List α := []

/-- The events of `freeRequests` differ in nothing that matters. -/
structure DmaReadFifo (params : DmaReadFifoParams) (α : Type) where
  buffer : Fifo α
  nextAddr : Addr := 0
  endAddr : Addr := 0
  pendingRequests : List (DmaDoneEvent α) := []
  freeRequests : ℕ := params.maxPending
  drainState : DrainState := .running

def bytesAt {α : Type} (memory : Addr → α) (addr : Addr) (size : ℕ) : List α :=
  (range size).map fun i => memory (addr + BitVec.ofNat 64 i)

/-- What a call tells: how much there was before it, what it returned, and the callbacks. -/
structure DmaLabel (α : Type) where
  size : ℕ
  got : Option (List α) := none
  endOfBlock : Bool := false
  idle : Bool := false
  deriving DecidableEq, Repr

inductive DmaOp where
  | startFill (start size : Addr)
  | stopFill
  | tryGet (len : ℕ)
  | flush
  /-- The port has the data of some pending request. -/
  | process (index : ℕ)
  | drain
  | drainResume
  deriving DecidableEq, Repr

namespace DmaReadFifo

variable {params : DmaReadFifoParams} {α : Type}

def new [Inhabited α] (params : DmaReadFifoParams) : DmaReadFifo params α where
  buffer := ⟨.new params.fifoSize⟩

def atEndOfBlock (fifo : DmaReadFifo params α) : Bool := fifo.nextAddr == fifo.endAddr

def isActive (fifo : DmaReadFifo params α) : Bool := !(fifo.pendingRequests.isEmpty && fifo.atEndOfBlock)

def resumeFillBypass (fifo : DmaReadFifo params α) (memory : Addr → α) : Except Abort (DmaReadFifo params α) := do
  let fifoSpace := fifo.buffer.capacity - fifo.buffer.size
  if params.cacheLineSize ≤ fifoSpace ∨ fifo.buffer.capacity < params.cacheLineSize then
    let xferSize := min fifoSpace (fifo.endAddr - fifo.nextAddr).toNat
    require fifo.pendingRequests.isEmpty "pendingRequests.empty()"
    let buffer ← fifo.buffer.write (bytesAt memory fifo.nextAddr xferSize)
    return { fifo with
      buffer
      nextAddr := fifo.nextAddr + BitVec.ofNat 64 xferSize }
  else
    return fifo

/-- The loop of resumeFillTiming, which takes a free event at each turn. -/
def fillFrom : ℕ → ℕ → DmaReadFifo params α → DmaReadFifo params α
  | 0, _, fifo => fifo
  | free + 1, sizePending, fifo =>
    if fifo.atEndOfBlock then fifo
    else
      let reqSize := min params.maxReqSize (fifo.endAddr - fifo.nextAddr).toNat
      if params.fifoSize < fifo.buffer.size + sizePending + reqSize then fifo
      else fillFrom free (sizePending + reqSize) { fifo with
        freeRequests := free
        nextAddr := fifo.nextAddr + BitVec.ofNat 64 reqSize
        pendingRequests := fifo.pendingRequests ++ [{ addr := fifo.nextAddr, requestSize := reqSize }] }

def resumeFillTiming (fifo : DmaReadFifo params α) : DmaReadFifo params α :=
  fillFrom fifo.freeRequests (fifo.pendingRequests.map DmaDoneEvent.requestSize).sum fifo

/-- Also whether the end of the block was reached. -/
def resumeFill (fifo : DmaReadFifo params α) (memory : Addr → α) : Except Abort (DmaReadFifo params α × Bool) := do
  if fifo.drainState = .draining then
    return (fifo, false)
  else
    let filled ← if params.bypassCaches then fifo.resumeFillBypass memory else .ok fifo.resumeFillTiming
    return (filled, !fifo.atEndOfBlock && filled.atEndOfBlock)

/-- The loop of handlePending, with the requests that are still to be looked at. -/
def handleFrom : List (DmaDoneEvent α) → DmaReadFifo params α → Except Abort (DmaReadFifo params α)
  | [], fifo => .ok { fifo with pendingRequests := [] }
  | event :: rest, fifo =>
    if event.done then do
      let buffer ← if event.canceled then .ok fifo.buffer else fifo.buffer.write event.data
      handleFrom rest { fifo with
        buffer
        freeRequests := fifo.freeRequests + 1 }
    else .ok { fifo with pendingRequests := event :: rest }

def signalDrainDone (fifo : DmaReadFifo params α) : DmaReadFifo params α :=
  if fifo.drainState = .draining then { fifo with drainState := .drained } else fifo

def handlePending (fifo : DmaReadFifo params α) : Except Abort (DmaReadFifo params α) := do
  let handled ← handleFrom fifo.pendingRequests fifo
  return if handled.pendingRequests.isEmpty then handled.signalDrainDone else handled

/-- When the last request of a drain is done, the state is Drained by the time of resumeFill, which goes on. -/
def dmaDone (fifo : DmaReadFifo params α) (memory : Addr → α) : Except Abort (DmaReadFifo params α × Bool × Bool) := do
  let handled ← fifo.handlePending
  let (filled, endOfBlock) ← handled.resumeFill memory
  return (filled, endOfBlock, fifo.isActive && !filled.isActive)

/-- DmaDoneEvent::process of a pending request. -/
def process (fifo : DmaReadFifo params α) (index : ℕ) (memory : Addr → α) : Except Abort (DmaReadFifo params α × Bool × Bool) := do
  match fifo.pendingRequests[index]? with
  | none => .error .outOfBounds
  | some event =>
    require (!event.done) "!_done"
    let answered := { event with
      done := true
      data := bytesAt memory event.addr event.requestSize }
    dmaDone { fifo with pendingRequests := fifo.pendingRequests.set index answered } memory

def tryGet (fifo : DmaReadFifo params α) (len : ℕ) (memory : Addr → α) :
    Except Abort (Option (List α) × DmaReadFifo params α × Bool) := do
  if len ≤ fifo.buffer.size then
    let (out, buffer) ← fifo.buffer.read len
    let (filled, endOfBlock) ← resumeFill { fifo with buffer } memory
    return (some out, filled, endOfBlock)
  else
    return (none, fifo, false)

def startFill (fifo : DmaReadFifo params α) (start size : Addr) (memory : Addr → α) : Except Abort (DmaReadFifo params α × Bool) := do
  require fifo.atEndOfBlock "atEndOfBlock()"
  resumeFill { fifo with
    nextAddr := start
    endAddr := start + size } memory

def stopFill (fifo : DmaReadFifo params α) : DmaReadFifo params α :=
  { fifo with
    nextAddr := fifo.endAddr
    pendingRequests := fifo.pendingRequests.map fun event => { event with canceled := true } }

def drain (fifo : DmaReadFifo params α) : DmaReadFifo params α :=
  { fifo with drainState := if fifo.pendingRequests.isEmpty then .drained else .draining }

def step : Step (DmaReadFifo params α) (DmaOp × (Addr → α)) (DmaOp × DmaLabel α) Abort := fun fifo call => do
  let label : DmaLabel α := { size := fifo.buffer.size }
  match call.1 with
  | .startFill start size =>
    let (next, endOfBlock) ← fifo.startFill start size call.2
    return (next, [(call.1, { label with endOfBlock })])
  | .stopFill => return (fifo.stopFill, [(call.1, label)])
  | .tryGet len =>
    let (got, next, endOfBlock) ← fifo.tryGet len call.2
    return (next, [(call.1, { label with got, endOfBlock })])
  | .flush => return ({ fifo with buffer := fifo.buffer.flush }, [(call.1, label)])
  | .process index =>
    let (next, endOfBlock, idle) ← fifo.process index call.2
    return (next, [(call.1, { label with endOfBlock, idle })])
  | .drain => return (fifo.drain, [(call.1, label)])
  | .drainResume => return ({ fifo with drainState := .running }, [(call.1, label)])

end DmaReadFifo

end ImcGem5.Dev
