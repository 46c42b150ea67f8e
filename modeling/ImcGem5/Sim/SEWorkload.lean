import ImcGem5.Sim.MemState

/-! Processes in syscall emulation that take their physical pages from one pool: allocation,
the fix-up of page faults, and the copy of an address space by clone. Physical memory has a
byte at every address. The rest of the memory state (the program break, the end of the mmap
area) is left out, and so are clones that share their memory. -/

namespace ImcGem5.Sim
open Lib Mem

/-- Counters are signed. -/
structure MemPool where
  startPageNum : BitVec 64
  freePageNum : BitVec 64
  totalPages : BitVec 64

namespace MemPool

def create (page : PageSize) (ptr limit : Addr) : Except Stop MemPool := do
  let totalPages := (limit - ptr) >>> page.shift
  check (decide (0 < totalPages.toInt)) "_totalPages > 0"
  return { startPageNum := ptr >>> page.shift, freePageNum := ptr >>> page.shift, totalPages }

def freePageAddr (page : PageSize) (pool : MemPool) : Addr := pool.freePageNum <<< page.shift

def allocatedPages (pool : MemPool) : BitVec 64 := pool.freePageNum - pool.startPageNum

def freePages (pool : MemPool) : BitVec 64 := pool.totalPages - pool.allocatedPages

def allocate (page : PageSize) (pool : MemPool) (npages : BitVec 64) : Except Stop (Addr × MemPool) := do
  let returnAddr := pool.freePageAddr page
  let pool := { pool with freePageNum := pool.freePageNum + npages }
  refuse (decide (pool.freePages.toInt ≤ 0)) "Out of memory, please increase size of physical memory."
  return (returnAddr, pool)

end MemPool

/-- allocPhysPages, which takes an int. -/
def allocPhysPages (page : PageSize) (pool : MemPool) (npages : BitVec 32) : Except Stop (Addr × MemPool) :=
  pool.allocate page (npages.signExtend 64)

structure SEWorkload where
  memPool : MemPool
  processes : Nat → Process
  contextIds : Nat → List ContextID
  memory : Addr → Byte

def pageCount (page : PageSize) (size : BitVec 64) : BitVec 32 := ((size + page.bytes - 1) / page.bytes).setWidth 32

def pageAt (memory : Addr → Byte) (paddr : Addr) : Addr → Byte := fun offset => memory (paddr + offset)

def writePage (page : PageSize) (memory : Addr → Byte) (paddr : Addr) (buf : Addr → Byte) : Addr → Byte :=
  fun a => if (a - paddr).toNat < 2 ^ page.shift then buf (a - paddr) else memory a

def writeBytes (memory : Addr → Byte) (paddr : Addr) (bytes : List Byte) : Addr → Byte :=
  fun a => (bytes[(a - paddr).toNat]?).getD (memory a)

namespace SEWorkload
variable (page : PageSize)

def setTable (work : SEWorkload) (pid : Nat) (pTable : EmulationPageTable) : SEWorkload :=
  { work with processes := Function.update work.processes pid { work.processes pid with pTable } }

def translate (work : SEWorkload) (pid : Nat) (vaddr : Addr) : Option Addr :=
  ((work.processes pid).pTable.lookup page vaddr).map fun entry => page.pageOffset vaddr + entry.paddr

def allocateMem (work : SEWorkload) (pid : Nat) (vaddr : Addr) (size : BitVec 64) (clobber : Bool) : Except Stop SEWorkload := do
  let pageAddr := page.pageAlign vaddr
  if !clobber && ((work.processes pid).pTable.lookup page pageAddr).isSome then return work
  else
    let npages := pageCount page size
    let (paddr, memPool) ← allocPhysPages page work.memPool npages
    let pagesSize := npages.signExtend 64 * page.bytes
    let flags := if clobber then EmulationPageTable.clobberFlag else 0
    let pTable ← (work.processes pid).pTable.map page pageAddr paddr pagesSize.toInt flags
    return { work with memPool }.setTable pid pTable

/-- writeBlob to a page that is mapped. -/
def writeBlob (work : SEWorkload) (pid : Nat) (vaddr : Addr) (bytes : List Byte) : Except Stop SEWorkload :=
  match work.translate page pid vaddr with
  | some paddr => .ok { work with memory := writeBytes work.memory paddr bytes }
  | none => .error (.abort (.panic "writeBlob failed"))

/-- The loop of fixupFault over the contexts of the process. -/
def fillEach (work : SEWorkload) (pid : Nat) (vma : VMA) (start : Addr) : List ContextID → Except Stop SEWorkload
  | [] => .ok work
  | _ :: contextIds => do
    let work ← work.writeBlob page pid start (vma.fillMemPages page start)
    work.fillEach pid vma start contextIds

/-- The loop that grows the stack a page at a time. -/
def growStack (pid : Nat) (vaddr : Addr) : Nat → SEWorkload → Except Stop SEWorkload
  | 0, _ => .error .hang
  | left + 1, work => do
    let process := work.processes pid
    if vaddr.ult process.stackMin then
      let stackMin := process.stackMin - page.bytes
      refuse (process.maxStackSize.ult (process.stackBase - stackMin)) "Maximum stack size exceeded"
      let work := { work with processes := Function.update work.processes pid { process with stackMin } }
      let work ← work.allocateMem page pid stackMin page.bytes false
      growStack pid vaddr left work
    else return work

/-- The result of fixupFault tells whether the fault was fixed. -/
def fixupFault (work : SEWorkload) (pid : Nat) (vaddr : Addr) : Except Stop (SEWorkload × Bool) := do
  let process := work.processes pid
  match process.vmaList.find? fun vma => vma.addrRange.contains vaddr with
  | some vma =>
    let vpageStart := page.pageAlign vaddr
    let work ← work.allocateMem page pid vpageStart page.bytes false
    if vma.origHostBuf.isSome then
      let work ← work.fillEach page pid vma vpageStart (work.contextIds pid)
      return (work, true)
    else return (work, true)
  | none =>
    if !vaddr.ult process.stackMin && vaddr.ult process.stackBase then
      let work ← work.allocateMem page pid (page.pageAlign vaddr) page.bytes false
      return (work, true)
    else if vaddr.ult process.stackMin && !vaddr.ult (process.stackBase - process.maxStackSize) then
      let work ← growStack page pid vaddr turns work
      return (work, true)
    else return (work, false)

/-- replicatePage of the process `child`, with the old context in `parent`. -/
def replicatePage (work : SEWorkload) (parent child : Nat) (vaddr newPaddr : Addr) (allocatePage : Bool) : Except Stop SEWorkload := do
  let (newPaddr, memPool) ← (if allocatePage then allocPhysPages page work.memPool 1 else .ok (newPaddr, work.memPool))
  match work.translate page parent vaddr with
  | none => .error (.abort (.panic "readBlob failed"))
  | some paddr =>
    let buf := pageAt work.memory paddr
    let pTable ← (work.processes child).pTable.map page vaddr newPaddr page.bytes.toInt EmulationPageTable.clobberFlag
    let work := { work with memPool }.setTable child pTable
    match work.translate page child vaddr with
    | none => .error (.abort (.panic "writeBlob failed"))
    | some written => return { work with memory := writePage page work.memory written buf }

/-- The loop of clone over the mappings of the parent. -/
def replicateEach (parent child : Nat) : List Addr → SEWorkload → Except Stop SEWorkload
  | [], work => .ok work
  | vaddr :: mappings, work => do
    let found := work.translate page child vaddr
    let work ← work.replicatePage page parent child vaddr (found.getD 0) found.isNone
    replicateEach parent child mappings work

/-- clone without CLONE_VM. The mappings are the virtual pages of the parent in the order in
which its table gives them. -/
def clone (work : SEWorkload) (parent child : Nat) (mappings : List Addr) : Except Stop SEWorkload := do
  let work ← replicateEach page parent child mappings work
  let copied := { work.processes parent with pTable := (work.processes child).pTable }
  return { work with processes := Function.update work.processes child copied }

end SEWorkload

inductive WorkloadEvent where
  | allocateMem (pid : Nat) (vaddr : Addr) (size : BitVec 64) (clobber : Bool)
  | fixupFault (pid : Nat) (vaddr : Addr)
  | mapRegion (pid : Nat) (startAddr length : Addr) (backing : Option (List Byte × Nat))
  | unmapRegion (pid : Nat) (startAddr length : Addr)
  | remapRegion (pid : Nat) (startAddr newStartAddr length : Addr)
  | clone (parent child : Nat) (mappings : List Addr)
  /-- Whatever the processes store. -/
  | stored (memory : Addr → Byte)

namespace SEWorkload
variable (page : PageSize)

/-- A call of the memory state of one process. -/
def withProcess (work : SEWorkload) (pid : Nat) (result : Except Stop Process) : Except Stop SEWorkload := do
  let process ← result
  return { work with processes := Function.update work.processes pid process }

def handle (work : SEWorkload) : WorkloadEvent → Except Stop SEWorkload
  | .allocateMem pid vaddr size clobber => work.allocateMem page pid vaddr size clobber
  | .fixupFault pid vaddr => work.fixupFault page pid vaddr >>= fun fixed => .ok fixed.1
  | .mapRegion pid startAddr length backing => work.withProcess pid ((work.processes pid).mapRegion page startAddr length backing)
  | .unmapRegion pid startAddr length => work.withProcess pid ((work.processes pid).unmapRegion page startAddr length)
  | .remapRegion pid startAddr newStartAddr length =>
    work.withProcess pid ((work.processes pid).remapRegion page startAddr newStartAddr length)
  | .clone parent child mappings => work.clone page parent child mappings
  | .stored memory => .ok { work with memory }

def step : Step SEWorkload WorkloadEvent Unit Stop := fun work event => do
  let work ← work.handle page event
  return (work, [])

end SEWorkload

end ImcGem5.Sim
