import ImcGem5.Mem.Packet

/-! AbstractMemory: a contiguous block of physical memory and the reservations
that load-locked accesses left in it. The backing store is indexed by guest
physical address, so `pmemAddr + addr - range.start()` is the byte at `addr`;
memories without a backing store (null = True) are not modelled. -/

namespace ImcGem5.Mem
open Lib

structure AddrRange where
  start : Addr
  stop : Addr
  deriving DecidableEq, Repr

namespace AddrRange

/-- RangeSize(start, size); the end may wrap. -/
def rangeSize (start : Addr) (size : Nat) : AddrRange := ⟨start, start + BitVec.ofNat 64 size⟩

def contains (range : AddrRange) (a : Addr) : Bool := range.start.ule a && a.ult range.stop

def isSubset (inner outer : AddrRange) : Bool := outer.start.ule inner.start && inner.stop.ule outer.stop

/-- Whether a host access of `length` bytes at `address` stays in the buffer that
backs the range. -/
def backs (range : AddrRange) (address : Addr) (length : Nat) : Bool :=
  decide (range.start.toNat ≤ address.toNat) && decide (address.toNat + length ≤ range.stop.toNat)

end AddrRange

def Packet.getAddrRange (pkt : Packet) : AddrRange := .rangeSize pkt.addr pkt.size

structure LockedAddr where
  addr : Addr
  contextId : ContextID
  deriving DecidableEq, Repr

/-- The minimum granularity of a reservation is 16 bytes. -/
def LockedAddr.mask (paddr : Addr) : Addr := paddr &&& ~~~0xf

structure AbstractMemory where
  range : AddrRange
  writeable : Bool
  pmem : Store
  lockedAddrList : List LockedAddr

/-- What an access did, for properties about histories: a reservation taken, bytes
of the store read or written, a store-conditional decided. -/
inductive Effect where
  | loadLocked (context : ContextID) (granule : Addr)
  | read (addresses : List Nat)
  | wrote (addresses : List Nat)
  | storeConditional (context : ContextID) (granule : Addr) (allowed : Bool)
  deriving DecidableEq, Repr

def span (address : Addr) (length : Nat) : List Nat := (List.range length).map (address.toNat + ·)

namespace AbstractMemory

def hostRead (mem : AbstractMemory) (address : Addr) (length : Nat) : Except Abort (List Byte) :=
  if mem.range.backs address length then .ok (mem.pmem.read address.toNat length) else .error .outOfBounds

def hostWrite (mem : AbstractMemory) (address : Addr) (bytes : List Byte) : Except Abort AbstractMemory :=
  if mem.range.backs address bytes.length then .ok { mem with pmem := mem.pmem.write address.toNat bytes }
  else .error .outOfBounds

def moveRecord (paddr : Addr) (context : ContextID) : List LockedAddr → Option (List LockedAddr)
  | [] => none
  | record :: rest =>
    if record.contextId = context then some ({ record with addr := paddr } :: rest)
    else (moveRecord paddr context rest).map (record :: ·)

def trackLoadLocked (mem : AbstractMemory) (pkt : Packet) : Except Abort (AbstractMemory × List Effect) :=
  let paddr := LockedAddr.mask pkt.req.paddr
  match pkt.req.contextId with
  | none => .error (.assertion "req->hasContextId()")
  | some context =>
    -- no record for this context: a new one goes to the front
    let locked := (moveRecord paddr context mem.lockedAddrList).getD (⟨paddr, context⟩ :: mem.lockedAddrList)
    .ok ({ mem with lockedAddrList := locked }, [.loadLocked context paddr])

/-- The outcome of checking a store against the reservations: whether it may be
done, the records left, and the result a store-conditional reports. -/
structure WriteCheck where
  allowStore : Bool
  locked : List LockedAddr
  extraData : Option (BitVec 64)

def checkLockedAddrList (mem : AbstractMemory) (pkt : Packet) : Except Abort WriteCheck :=
  let paddr := LockedAddr.mask pkt.req.paddr
  let erased := mem.lockedAddrList.filter fun record => record.addr != paddr
  if pkt.isLLSC then
    match pkt.req.contextId with
    | none =>
      -- matchesContext asserts a context as soon as some record has the address
      if mem.lockedAddrList.any (fun record => record.addr == paddr) then .error (.assertion "req->hasContextId()")
      else .ok ⟨false, mem.lockedAddrList, some 0⟩
    | some context =>
      if mem.lockedAddrList.any (fun record => record.addr == paddr && record.contextId == context) then
        .ok ⟨true, erased, some 1⟩
      else .ok ⟨false, mem.lockedAddrList, some 0⟩
  else .ok ⟨true, erased, none⟩

def writeOK (mem : AbstractMemory) (pkt : Packet) : Except Abort WriteCheck :=
  if !mem.writeable then .ok ⟨false, mem.lockedAddrList, none⟩
  else if mem.lockedAddrList.isEmpty then
    if pkt.isLLSC then .ok ⟨false, [], some 0⟩ else .ok ⟨true, [], none⟩
  else mem.checkLockedAddrList pkt

end AbstractMemory

namespace Packet

/-- The bytes a write carries; a buffer shorter than the packet is overrun. -/
def payload (pkt : Packet) : Except Abort (List Byte) :=
  if pkt.size ≤ pkt.data.length then .ok (pkt.data.take pkt.size) else .error .outOfBounds

/-- Packet::setData: the response carries the bytes of the memory. -/
def setData (pkt : Packet) (bytes : List Byte) : Packet := { pkt with data := bytes ++ pkt.data.drop pkt.size }

/-- Bytes left by a masked write: only enabled positions take the new byte. -/
def enabled (mask : List Bool) (fresh old : List Byte) : List Byte :=
  List.zipWith (fun choice current => if choice.1 then choice.2 else current) (mask.zip fresh) old

def touched (pkt : Packet) : List Nat :=
  if pkt.isMaskedWrite then
    (List.range pkt.size).filterMap fun offset =>
      if pkt.req.byteEnable.getD offset false then some (pkt.addr.toNat + offset) else none
  else span pkt.addr pkt.size

def swapCondition (pkt : Packet) : Except Abort (Option (List Byte)) :=
  if !pkt.req.isCondSwap then .ok none
  else if pkt.size == 8 then .ok (some (leBytes 8 pkt.req.extraData.toNat))
  else if pkt.size == 4 then .ok (some (leBytes 4 pkt.req.extraData.toNat))
  else .error (.panic "Invalid size for conditional read/write")

/-- Request::setExtraData, which tells a store-conditional its result. -/
def setExtraData (pkt : Packet) (extraData : Option (BitVec 64)) : Packet :=
  { pkt with req := { pkt.req with extraData := extraData.getD pkt.req.extraData } }

/-- The label of a store-conditional; a plain store is not one. -/
def decided (pkt : Packet) (allowed : Bool) : List Effect :=
  match pkt.isLLSC, pkt.req.contextId with
  | true, some context => [.storeConditional context (LockedAddr.mask pkt.req.paddr) allowed]
  | _, _ => []

end Packet

namespace AbstractMemory

/-- Packet::writeData to the host address of the packet. -/
def writeData (mem : AbstractMemory) (pkt : Packet) : Except Abort (AbstractMemory × List Effect) := do
  let bytes ← pkt.payload
  if pkt.isMaskedWrite then
    require (pkt.req.byteEnable.length == pkt.size) "req->getByteEnable().size() == getSize()"
    let old ← mem.hostRead pkt.addr pkt.size
    let mem ← mem.hostWrite pkt.addr (Packet.enabled pkt.req.byteEnable bytes old)
    return (mem, [.wrote pkt.touched])
  else
    let mem ← mem.hostWrite pkt.addr bytes
    return (mem, [.wrote pkt.touched])

/-- The SwapReq branch of access. A swap does not consult the reservations. -/
def swap (mem : AbstractMemory) (pkt : Packet) : Except Abort (AbstractMemory × Packet × List Effect) := do
  let old ← mem.hostRead pkt.addr pkt.size
  if pkt.isAtomicOp then
    -- the functor works in place: bytes past its result keep their value
    let fresh := pkt.req.atomicOpFunctor old
    let mem ← mem.hostWrite pkt.addr ((fresh ++ old.drop fresh.length).take pkt.size)
    return (mem, pkt.setData old, [.read pkt.touched, .wrote pkt.touched])
  else
    let fresh ← pkt.payload
    let condition ← pkt.swapCondition
    if condition.all (· == old) then
      let mem ← mem.hostWrite pkt.addr fresh
      require (!pkt.req.isInstFetch) "!pkt->req->isInstFetch()"
      return (mem, pkt.setData old, [.read pkt.touched, .wrote pkt.touched])
    else
      require (!pkt.req.isInstFetch) "!pkt->req->isInstFetch()"
      return (mem, pkt.setData old, [.read pkt.touched])

/-- The read branch of access: a load-locked leaves its reservation first. -/
def readAccess (mem : AbstractMemory) (pkt : Packet) : Except Abort (AbstractMemory × Packet × List Effect) := do
  require (!pkt.isWrite) "!pkt->isWrite()"
  let bytes ← mem.hostRead pkt.addr pkt.size
  if pkt.isLLSC then
    require (!pkt.fromCache) "!pkt->fromCache()"
    let (mem, effects) ← mem.trackLoadLocked pkt
    return (mem, pkt.setData bytes, effects ++ [.read pkt.touched])
  else return (mem, pkt.setData bytes, [.read pkt.touched])

/-- The write branch of access: plain stores and store-conditionals. -/
def writeAccess (mem : AbstractMemory) (pkt : Packet) : Except Abort (AbstractMemory × Packet × List Effect) := do
  let check ← mem.writeOK pkt
  let unlocked := { mem with lockedAddrList := check.locked }
  if check.allowStore then
    let (written, effects) ← unlocked.writeData pkt
    require (!pkt.req.isInstFetch) "!pkt->req->isInstFetch()"
    return (written, pkt.setExtraData check.extraData, pkt.decided check.allowStore ++ effects)
  else return (unlocked, pkt.setExtraData check.extraData, pkt.decided check.allowStore)

/-- AbstractMemory::access before the packet is turned around. -/
def perform (mem : AbstractMemory) (pkt : Packet) : Except Abort (AbstractMemory × Packet × List Effect) :=
  if pkt.cmd == .swapReq then mem.swap pkt
  else if pkt.isRead then mem.readAccess pkt
  else if pkt.isInvalidate || pkt.isClean then do
    require (!pkt.isWrite) "!pkt->isWrite()"
    return (mem, pkt, [])
  else if pkt.isWrite then mem.writeAccess pkt
  else .error (.panic "Unexpected packet")

def access (mem : AbstractMemory) (pkt : Packet) : Except Abort (AbstractMemory × Packet × List Effect) :=
  if pkt.cacheResponding then .ok (mem, pkt, [])
  else if pkt.cmd == .cleanEvict || pkt.cmd == .writebackClean then .ok (mem, pkt, [])
  else do
    require (pkt.getAddrRange.isSubset mem.range) "pkt->getAddrRange().isSubset(range)"
    let (mem, pkt, effects) ← mem.perform pkt
    if pkt.needsResponse then
      let pkt ← pkt.makeResponse
      return (mem, pkt, effects)
    else return (mem, pkt, effects)

def functionalAccess (mem : AbstractMemory) (pkt : Packet) : Except Abort (AbstractMemory × Packet) := do
  require (pkt.getAddrRange.isSubset mem.range) "pkt->getAddrRange().isSubset(range)"
  if pkt.isRead then
    let bytes ← mem.hostRead pkt.addr pkt.size
    let pkt ← (pkt.setData bytes).makeResponse
    return (mem, pkt)
  else if pkt.isWrite then
    let (mem, _) ← mem.writeData pkt
    let pkt ← pkt.makeResponse
    return (mem, pkt)
  else if pkt.cmd.isPrint then return (mem, pkt)
  else .error (.panic "AbstractMemory: unimplemented functional command")

end AbstractMemory
end ImcGem5.Mem
