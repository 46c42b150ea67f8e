import ImcGem5.Lib.Bytes

/-! Commands, requests and packets: what travels between a processor, the
crossbars and the memories. Only the fields some modelled component reads are
kept; statistics, tracing, quality of service and sender state are left out. -/

namespace ImcGem5.Mem
open Lib

abbrev Addr := BitVec 64

/-- Ticks, and the delays of packets and queues that are added to them, do not wrap here. The
source keeps ticks in 64 bits and the delays of a packet in 32. -/
abbrev Tick := Nat

abbrev ContextID := Nat
abbrev PortID := Nat

inductive MemCmd where
  | invalidCmd | readReq | readResp | readRespWithInvalidate | writeReq | writeResp | writeCompleteResp
  | writebackDirty | writebackClean | writeClean | cleanEvict | softPFReq | softPFExReq | hardPFReq
  | softPFResp | hardPFResp | writeLineReq | upgradeReq | scUpgradeReq | upgradeResp | scUpgradeFailReq
  | upgradeFailResp | readExReq | readExResp | readCleanReq | readSharedReq | loadLockedReq | storeCondReq
  | storeCondFailReq | storeCondResp | lockedRMWReadReq | lockedRMWReadResp | lockedRMWWriteReq
  | lockedRMWWriteResp | swapReq | swapResp | memFenceReq | memSyncReq | memSyncResp | memFenceResp
  | cleanSharedReq | cleanSharedResp | cleanInvalidReq | cleanInvalidResp | invalidDestError
  | badAddressError | readError | writeError | functionalReadError | functionalWriteError | printReq
  | flushReq | invalidateReq | invalidateResp | htmReq | htmReqResp | htmAbort | tlbiExtSync
  deriving DecidableEq, Repr

inductive Attribute where
  | isRead | isWrite | isUpgrade | isInvalidate | isClean | needsWritable | isRequest | isResponse
  | needsResponse | isEviction | isSWPrefetch | isHWPrefetch | isLlsc | isLockedRMW | hasData | isError
  | isPrint | isFlush | fromCache
  deriving DecidableEq, Repr

structure CommandInfo where
  attributes : List Attribute
  response : MemCmd

namespace MemCmd

/-- The table of packet.cc, in the order of the enumeration. -/
def commandInfo : MemCmd → CommandInfo
  | .invalidCmd => ⟨[], .invalidCmd⟩
  | .readReq => ⟨[.isRead, .isRequest, .needsResponse], .readResp⟩
  | .readResp => ⟨[.isRead, .isResponse, .hasData], .invalidCmd⟩
  | .readRespWithInvalidate => ⟨[.isRead, .isResponse, .hasData, .isInvalidate], .invalidCmd⟩
  | .writeReq => ⟨[.isWrite, .needsWritable, .isRequest, .needsResponse, .hasData], .writeResp⟩
  | .writeResp => ⟨[.isWrite, .isResponse], .invalidCmd⟩
  | .writeCompleteResp => ⟨[.isWrite, .isResponse], .invalidCmd⟩
  | .writebackDirty => ⟨[.isWrite, .isRequest, .isEviction, .hasData, .fromCache], .invalidCmd⟩
  | .writebackClean => ⟨[.isWrite, .isRequest, .isEviction, .hasData, .fromCache], .invalidCmd⟩
  | .writeClean => ⟨[.isWrite, .isRequest, .hasData, .fromCache], .invalidCmd⟩
  | .cleanEvict => ⟨[.isRequest, .isEviction, .fromCache], .invalidCmd⟩
  | .softPFReq => ⟨[.isRead, .isRequest, .isSWPrefetch, .needsResponse], .softPFResp⟩
  | .softPFExReq => ⟨[.isRead, .needsWritable, .isInvalidate, .isRequest, .isSWPrefetch, .needsResponse], .softPFResp⟩
  | .hardPFReq => ⟨[.isRead, .isRequest, .isHWPrefetch, .needsResponse, .fromCache], .hardPFResp⟩
  | .softPFResp => ⟨[.isRead, .isResponse, .isSWPrefetch, .hasData], .invalidCmd⟩
  | .hardPFResp => ⟨[.isRead, .isResponse, .isHWPrefetch, .hasData], .invalidCmd⟩
  | .writeLineReq => ⟨[.isWrite, .needsWritable, .isRequest, .needsResponse, .hasData], .writeResp⟩
  | .upgradeReq => ⟨[.isInvalidate, .needsWritable, .isUpgrade, .isRequest, .needsResponse, .fromCache], .upgradeResp⟩
  | .scUpgradeReq => ⟨[.isInvalidate, .needsWritable, .isUpgrade, .isLlsc, .isRequest, .needsResponse, .fromCache], .upgradeResp⟩
  | .upgradeResp => ⟨[.isUpgrade, .isResponse], .invalidCmd⟩
  | .scUpgradeFailReq => ⟨[.isRead, .needsWritable, .isInvalidate, .isLlsc, .isRequest, .needsResponse, .fromCache], .upgradeFailResp⟩
  | .upgradeFailResp => ⟨[.isRead, .isResponse, .hasData], .invalidCmd⟩
  | .readExReq => ⟨[.isRead, .needsWritable, .isInvalidate, .isRequest, .needsResponse, .fromCache], .readExResp⟩
  | .readExResp => ⟨[.isRead, .isResponse, .hasData], .invalidCmd⟩
  | .readCleanReq => ⟨[.isRead, .isRequest, .needsResponse, .fromCache], .readResp⟩
  | .readSharedReq => ⟨[.isRead, .isRequest, .needsResponse, .fromCache], .readResp⟩
  | .loadLockedReq => ⟨[.isRead, .isLlsc, .isRequest, .needsResponse], .readResp⟩
  | .storeCondReq => ⟨[.isWrite, .needsWritable, .isLlsc, .isRequest, .needsResponse, .hasData], .storeCondResp⟩
  | .storeCondFailReq => ⟨[.isWrite, .needsWritable, .isLlsc, .isRequest, .needsResponse, .hasData], .storeCondResp⟩
  | .storeCondResp => ⟨[.isWrite, .isLlsc, .isResponse], .invalidCmd⟩
  | .lockedRMWReadReq => ⟨[.isRead, .isLockedRMW, .needsWritable, .isRequest, .needsResponse], .lockedRMWReadResp⟩
  | .lockedRMWReadResp => ⟨[.isRead, .isLockedRMW, .needsWritable, .isResponse, .hasData], .invalidCmd⟩
  | .lockedRMWWriteReq => ⟨[.isWrite, .isLockedRMW, .needsWritable, .isRequest, .needsResponse, .hasData], .lockedRMWWriteResp⟩
  | .lockedRMWWriteResp => ⟨[.isWrite, .isLockedRMW, .needsWritable, .isResponse], .invalidCmd⟩
  | .swapReq => ⟨[.isRead, .isWrite, .needsWritable, .isRequest, .hasData, .needsResponse], .swapResp⟩
  | .swapResp => ⟨[.isRead, .isWrite, .isResponse, .hasData], .invalidCmd⟩
  | .memFenceReq => ⟨[.isRequest, .needsResponse], .memFenceResp⟩
  | .memSyncReq => ⟨[.isRequest, .needsResponse], .memSyncResp⟩
  | .memSyncResp => ⟨[.isResponse], .invalidCmd⟩
  | .memFenceResp => ⟨[.isResponse], .invalidCmd⟩
  | .cleanSharedReq => ⟨[.isRequest, .isClean, .needsResponse, .fromCache], .cleanSharedResp⟩
  | .cleanSharedResp => ⟨[.isResponse, .isClean], .invalidCmd⟩
  | .cleanInvalidReq => ⟨[.isRequest, .isInvalidate, .isClean, .needsResponse, .fromCache], .cleanInvalidResp⟩
  | .cleanInvalidResp => ⟨[.isResponse, .isInvalidate, .isClean], .invalidCmd⟩
  | .invalidDestError => ⟨[.isResponse, .isError], .invalidCmd⟩
  | .badAddressError => ⟨[.isResponse, .isError], .invalidCmd⟩
  | .readError => ⟨[.isRead, .isResponse, .isError], .invalidCmd⟩
  | .writeError => ⟨[.isWrite, .isResponse, .isError], .invalidCmd⟩
  | .functionalReadError => ⟨[.isRead, .isResponse, .isError], .invalidCmd⟩
  | .functionalWriteError => ⟨[.isWrite, .isResponse, .isError], .invalidCmd⟩
  | .printReq => ⟨[.isRequest, .isPrint], .invalidCmd⟩
  | .flushReq => ⟨[.isRequest, .isFlush, .needsWritable], .invalidCmd⟩
  | .invalidateReq => ⟨[.isInvalidate, .isRequest, .needsWritable, .needsResponse, .fromCache], .invalidateResp⟩
  | .invalidateResp => ⟨[.isInvalidate, .isResponse], .invalidCmd⟩
  | .htmReq => ⟨[.isRead, .isRequest, .needsResponse], .htmReqResp⟩
  | .htmReqResp => ⟨[.isRead, .isResponse], .invalidCmd⟩
  | .htmAbort => ⟨[.isRead, .isRequest], .invalidCmd⟩
  | .tlbiExtSync => ⟨[.isRequest], .invalidCmd⟩

def testCmdAttrib (cmd : MemCmd) (attrib : Attribute) : Bool := cmd.commandInfo.attributes.contains attrib

def isRead (cmd : MemCmd) : Bool := cmd.testCmdAttrib .isRead
def isWrite (cmd : MemCmd) : Bool := cmd.testCmdAttrib .isWrite
def isRequest (cmd : MemCmd) : Bool := cmd.testCmdAttrib .isRequest
def isResponse (cmd : MemCmd) : Bool := cmd.testCmdAttrib .isResponse
def needsWritable (cmd : MemCmd) : Bool := cmd.testCmdAttrib .needsWritable
def needsResponse (cmd : MemCmd) : Bool := cmd.testCmdAttrib .needsResponse
def isInvalidate (cmd : MemCmd) : Bool := cmd.testCmdAttrib .isInvalidate
def isEviction (cmd : MemCmd) : Bool := cmd.testCmdAttrib .isEviction
def isClean (cmd : MemCmd) : Bool := cmd.testCmdAttrib .isClean
def fromCache (cmd : MemCmd) : Bool := cmd.testCmdAttrib .fromCache
def hasData (cmd : MemCmd) : Bool := cmd.testCmdAttrib .hasData
def isLLSC (cmd : MemCmd) : Bool := cmd.testCmdAttrib .isLlsc
def isPrint (cmd : MemCmd) : Bool := cmd.testCmdAttrib .isPrint
def responseCommand (cmd : MemCmd) : MemCmd := cmd.commandInfo.response

theorem response_of_needsResponse (cmd : MemCmd) (needs : cmd.needsResponse = true) :
    cmd.isRequest = true ∧ cmd.responseCommand.isResponse = true ∧ cmd.responseCommand.needsResponse = false := by
  cases cmd <;> first | (exact ⟨rfl, rfl, rfl⟩) | (exact absurd needs (by decide))

end MemCmd

inductive BaseFlag where
  | archBits | instFetch | physical | uncacheable | strictOrder | privileged | cacheBlockZero | noAccess
  | lockedRMW | llsc | memSwap | memSwapCond | readModifyWrite | prefetch | pfExclusive | evictNext
  | acquire | release | atomicReturnOp | atomicNoReturnOp | kernel | secure | ptWalk | invalidate | clean
  | dstPOU | dstPOC | dstBits | htmStart | htmCommit | htmCancel | htmAbort | tlbi | tlbiSync
  | tlbiExtSync | tlbiExtSyncComp
  deriving DecidableEq, Repr

def BaseFlag.bits : BaseFlag → BitVec 64
  | .archBits => 0x00000000000000FF
  | .instFetch => 0x0000000000000100
  | .physical => 0x0000000000000200
  | .uncacheable => 0x0000000000000400
  | .strictOrder => 0x0000000000000800
  | .privileged => 0x0000000000008000
  | .cacheBlockZero => 0x0000000000010000
  | .noAccess => 0x0000000000080000
  | .lockedRMW => 0x0000000000100000
  | .llsc => 0x0000000000200000
  | .memSwap => 0x0000000000400000
  | .memSwapCond => 0x0000000000800000
  | .readModifyWrite => 0x0000000000020000
  | .prefetch => 0x0000000001000000
  | .pfExclusive => 0x0000000002000000
  | .evictNext => 0x0000000004000000
  | .acquire => 0x0000000000020000
  | .release => 0x0000000000040000
  | .atomicReturnOp => 0x0000000040000000
  | .atomicNoReturnOp => 0x0000000080000000
  | .kernel => 0x0000000000001000
  | .secure => 0x0000000010000000
  | .ptWalk => 0x0000000020000000
  | .invalidate => 0x0000000100000000
  | .clean => 0x0000000200000000
  | .dstPOU => 0x0000001000000000
  | .dstPOC => 0x0000002000000000
  | .dstBits => 0x0000003000000000
  | .htmStart => 0x0000010000000000
  | .htmCommit => 0x0000020000000000
  | .htmCancel => 0x0000040000000000
  | .htmAbort => 0x0000080000000000
  | .tlbi => 0x0000100000000000
  | .tlbiSync => 0x0000200000000000
  | .tlbiExtSync => 0x0000400000000000
  | .tlbiExtSyncComp => 0x0000800000000000

abbrev Flags := BitVec 64

def Flags.isSet (flags : Flags) (mask : BitVec 64) : Bool := flags &&& mask != 0

/-- A request lives behind a shared pointer; `id` is that pointer's identity,
the key of every table that remembers a request. -/
structure Request where
  id : Nat
  paddr : Addr
  size : Nat
  flags : Flags
  contextId : Option ContextID := none
  byteEnable : List Bool := []
  extraData : BitVec 64 := 0
  atomicOpFunctor : List Byte → List Byte := fun bytes => bytes

namespace Request

def isSecure (req : Request) : Bool := req.flags.isSet BaseFlag.secure.bits
def isCondSwap (req : Request) : Bool := req.flags.isSet BaseFlag.memSwapCond.bits
def isInstFetch (req : Request) : Bool := req.flags.isSet BaseFlag.instFetch.bits
def isAtomic (req : Request) : Bool :=
  req.flags.isSet BaseFlag.atomicReturnOp.bits || req.flags.isSet BaseFlag.atomicNoReturnOp.bits
def isToPOU (req : Request) : Bool := req.flags.isSet BaseFlag.dstPOU.bits
def isToPOC (req : Request) : Bool := req.flags.isSet BaseFlag.dstPOC.bits
def isMasked (req : Request) : Bool := req.byteEnable.contains false

end Request

/-- `data` is the buffer behind the packet's data pointer. -/
structure Packet where
  cmd : MemCmd
  req : Request
  addr : Addr
  size : Nat
  isSecure : Bool
  data : List Byte
  id : Nat
  cacheResponding : Bool := false
  expressSnoop : Bool := false
  responderHadWritable : Bool := false
  satisfied : Bool := false
  blockCached : Bool := false
  writeThrough : Bool := false
  bytesValid : List Bool := []
  headerDelay : Tick := 0
  payloadDelay : Tick := 0
  snoopDelay : Tick := 0

namespace Packet

/-- Packet::Packet(req, cmd) with its data attached. -/
def ofRequest (req : Request) (cmd : MemCmd) (data : List Byte) : Packet :=
  { cmd, req, addr := req.paddr, size := req.size, isSecure := req.isSecure, data, id := req.id }

def isRead (pkt : Packet) : Bool := pkt.cmd.isRead
def isWrite (pkt : Packet) : Bool := pkt.cmd.isWrite
def isRequest (pkt : Packet) : Bool := pkt.cmd.isRequest
def isResponse (pkt : Packet) : Bool := pkt.cmd.isResponse
def needsResponse (pkt : Packet) : Bool := pkt.cmd.needsResponse
def needsWritable (pkt : Packet) : Bool := pkt.cmd.needsWritable
def isInvalidate (pkt : Packet) : Bool := pkt.cmd.isInvalidate
def isEviction (pkt : Packet) : Bool := pkt.cmd.isEviction
def isClean (pkt : Packet) : Bool := pkt.cmd.isClean
def fromCache (pkt : Packet) : Bool := pkt.cmd.fromCache
def hasData (pkt : Packet) : Bool := pkt.cmd.hasData
def isLLSC (pkt : Packet) : Bool := pkt.cmd.isLLSC
def isAtomicOp (pkt : Packet) : Bool := pkt.req.isAtomic
def isCleanEviction (pkt : Packet) : Bool := pkt.cmd == .cleanEvict || pkt.cmd == .writebackClean
def isMaskedWrite (pkt : Packet) : Bool := pkt.cmd == .writeReq && pkt.req.isMasked
def matchAddr (pkt other : Packet) : Bool := pkt.addr == other.addr && pkt.isSecure == other.isSecure

end Packet

/-- Ways the simulator stops: a failed assertion, a panic, the divide error of the
host (a zero divisor or a quotient that does not fit), or a host access outside
the buffer it was meant for. -/
inductive Abort where
  | assertion (condition : String)
  | panic (message : String)
  | divideError
  | outOfBounds
  deriving DecidableEq, Repr

/-- assert(condition) -/
def require (condition : Bool) (text : String) : Except Abort Unit :=
  if condition then .ok () else .error (.assertion text)

def panicIf (condition : Bool) (message : String) : Except Abort Unit :=
  if condition then .error (.panic message) else .ok ()

@[simp] theorem require_true (text : String) : require true text = .ok () := rfl

@[simp] theorem panicIf_false (message : String) : panicIf false message = .ok () := rfl

theorem require_bind_eq_ok {α : Type} {condition : Bool} {text : String} {next : Unit → Except Abort α} {result : α} :
    (require condition text >>= next) = .ok result ↔ condition = true ∧ next () = .ok result := by
  cases condition <;> simp [require, bind, Except.bind]

theorem panicIf_bind_eq_ok {α : Type} {condition : Bool} {message : String} {next : Unit → Except Abort α}
    {result : α} : (panicIf condition message >>= next) = .ok result ↔ condition = false ∧ next () = .ok result := by
  cases condition <;> simp [panicIf, bind, Except.bind]

theorem of_require {α : Type} {condition : Bool} {text : String} {next : Unit → Except Abort α} {result : α}
    (ran : (require condition text >>= next) = .ok result) : condition = true ∧ next () = .ok result :=
  require_bind_eq_ok.mp ran

theorem of_panicIf {α : Type} {condition : Bool} {message : String} {next : Unit → Except Abort α} {result : α}
    (ran : (panicIf condition message >>= next) = .ok result) : condition = false ∧ next () = .ok result :=
  panicIf_bind_eq_ok.mp ran

def Packet.makeResponse (pkt : Packet) : Except Abort Packet := do
  require pkt.needsResponse "needsResponse()"
  require pkt.isRequest "isRequest()"
  return { pkt with cmd := pkt.cmd.responseCommand, expressSnoop := false }

theorem Packet.makeResponse_ok {pkt : Packet} (needs : pkt.needsResponse = true) :
    pkt.makeResponse = .ok { pkt with cmd := pkt.cmd.responseCommand, expressSnoop := false } ∧
      pkt.cmd.responseCommand.isResponse = true := by
  obtain ⟨request, response, _⟩ := pkt.cmd.response_of_needsResponse needs
  refine ⟨?_, response⟩
  simp only [makeResponse, require, needs, Packet.isRequest, request, if_true]
  rfl

/-- memcpy of `bytes` into a buffer at an offset. -/
def splice (buffer : List Byte) (offset : Nat) (bytes : List Byte) : List Byte :=
  buffer.take offset ++ bytes ++ buffer.drop (offset + bytes.length)

/-- What trySatisfyFunctional leaves: whether the access is complete, the packet
itself, and the data of the buffer it was checked against. -/
structure Satisfied where
  done : Bool
  pkt : Packet
  data : Option (List Byte)

/-- An unsigned passed for an int and added to an address. -/
def intSize (size : Nat) : Addr := (BitVec.ofNat 32 size).signExtend 64

/-- Packet::trySatisfyFunctional(obj, addr, is_secure, size, data); a packet with
no payload passes no data. -/
def Packet.trySatisfyData (pkt : Packet) (addr : Addr) (isSecure : Bool) (size : Nat) (data : Option (List Byte)) :
    Except Abort Satisfied :=
  let funcStart := pkt.addr
  let funcEnd := pkt.addr + BitVec.ofNat 64 pkt.size - 1
  let valStart := addr
  let valEnd := addr + intSize size - 1
  if isSecure != pkt.isSecure || valEnd.ult funcStart || funcEnd.ult valStart then .ok ⟨false, pkt, data⟩
  else if pkt.cmd.isPrint then do
    require data.isNone "!_data"
    return ⟨false, pkt, data⟩
  else match data with
    | none => .ok ⟨false, pkt, none⟩
    | some bytes =>
      let valOffset := if valStart.ult funcStart then (funcStart - valStart).toNat else 0
      let funcOffset := if funcStart.ult valStart then (valStart - funcStart).toNat else 0
      let overlapEnd := if funcEnd.ult valEnd then funcEnd else valEnd
      let overlapStart := if valStart.ult funcStart then funcStart else valStart
      let overlapSize := (overlapEnd + 1 - overlapStart).toNat
      if pkt.isRead then
        let copied := splice pkt.data funcOffset ((bytes.drop valOffset).take overlapSize)
        let valid := if pkt.bytesValid.isEmpty then List.replicate pkt.size false else pkt.bytesValid
        let marked := valid.mapIdx fun i old => old || (decide (funcOffset ≤ i) && decide (i < funcOffset + overlapSize))
        .ok ⟨marked.all (· == true), { pkt with data := copied, bytesValid := marked }, some bytes⟩
      else if pkt.isWrite then
        .ok ⟨false, pkt, some (splice bytes valOffset ((pkt.data.drop funcOffset).take overlapSize))⟩
      else .error (.panic "Don't know how to handle command")

/-- Packet::trySatisfyFunctional(other): masked writes are passed over. -/
def Packet.trySatisfyFunctional (pkt other : Packet) : Except Abort (Bool × Packet × Packet) := do
  if other.isMaskedWrite then return (false, pkt, other)
  else
    let result ← pkt.trySatisfyData other.addr other.isSecure other.size
      (if other.hasData then some other.data else none)
    return (result.done, result.pkt, { other with data := result.data.getD other.data })

/-- The loops over buffered packets: they end at the first packet that completes the access. -/
def Packet.satisfyFrom {α : Type} (packet : α → Packet) (update : α → Packet → α) :
    Packet → List α → Except Abort (Bool × Packet × List α)
  | pkt, [] => .ok (false, pkt, [])
  | pkt, entry :: rest => do
    let (found, pkt, other) ← pkt.trySatisfyFunctional (packet entry)
    if found then return (true, pkt, update entry other :: rest)
    else
      let (found, pkt, rest) ← satisfyFrom packet update pkt rest
      return (found, pkt, update entry other :: rest)

end ImcGem5.Mem
