import ImcGem5.Base.AddrRangeMap

/-! The address space of a process in syscall emulation: its virtual memory areas, some with
a file behind them, and its page table. The names of areas and the flushes of the TLBs are
left out, and the mmap of the host is taken to succeed. -/

namespace ImcGem5.Sim
open Lib Mem

inductive Stop where
  | abort (reason : Abort)
  | hang
  deriving DecidableEq, Repr

def check (condition : Bool) (text : String) : Except Stop Unit :=
  if condition then .ok () else .error (.abort (.assertion text))

def refuse (condition : Bool) (message : String) : Except Stop Unit :=
  if condition then .error (.abort (.panic message)) else .ok ()

structure PageSize where
  shift : Nat
  fits : shift < 63

namespace PageSize

def bytes (page : PageSize) : Addr := BitVec.ofNat 64 (2 ^ page.shift)

def pageAlign (page : PageSize) (a : Addr) : Addr := a &&& ~~~(page.bytes - 1)

def pageOffset (page : PageSize) (a : Addr) : Addr := a &&& (page.bytes - 1)

end PageSize

/-- A part of a file in host memory. -/
structure MappedFileBuffer where
  file : List Byte
  offset : Nat
  length : Nat
  deriving DecidableEq, Repr

/-- The constructor of MappedFileBuffer, which maps no more than the file has. -/
def MappedFileBuffer.create (file : List Byte) (length offset : Nat) : Except Stop MappedFileBuffer := do
  refuse (length == 0) "Tried to mmap file of length zero"
  refuse (decide (offset > file.length)) "Tried to mmap with offset greater than file size"
  let length := min (file.length - offset) length
  if length ≠ 0 then return { file, offset, length }
  else .error (.abort (.panic "Tried to mmap 0 bytes"))

/-- The pointer `hostBuf` is an offset into the buffer. -/
structure VMA where
  addrRange : AddrRange
  origHostBuf : Option MappedFileBuffer := none
  hostBuf : Nat := 0
  hostBufLen : Nat := 0
  deriving DecidableEq, Repr

namespace VMA

def start (vma : VMA) : Addr := vma.addrRange.start

def stop (vma : VMA) : Addr := vma.addrRange.stop

def sanityCheck (page : PageSize) (vma : VMA) : Except Stop VMA := do
  check (vma.start != vma.stop) "_addrRange.start() != _addrRange.end()"
  check (vma.start.ult vma.stop) "_addrRange.start() < _addrRange.end()"
  check (vma.start % page.bytes == 0) "(_addrRange.start() % _pageBytes) == 0"
  check (vma.stop % page.bytes == 0) "(_addrRange.end() % _pageBytes) == 0"
  return vma

/-- The constructor of VMA, with the file and the offset of its backing. -/
def create (page : PageSize) (addrRange : AddrRange) (backing : Option (List Byte × Nat)) : Except Stop VMA := do
  match backing with
  | none => sanityCheck page { addrRange }
  | some (file, offset) =>
    let buffer ← MappedFileBuffer.create file (addrRange.stop - addrRange.start).toNat offset
    sanityCheck page { addrRange, origHostBuf := some buffer, hostBufLen := buffer.length }

def isStrictSuperset (vma : VMA) (r : AddrRange) : Bool := vma.start.ult r.start && r.stop.ult vma.stop

def sliceRegionRight (page : PageSize) (vma : VMA) (sliceAddr : Addr) : Except Stop VMA :=
  sanityCheck page { vma with
    addrRange := ⟨vma.start, sliceAddr⟩
    hostBufLen := if vma.origHostBuf.isSome then min vma.hostBufLen (sliceAddr - vma.start).toNat else vma.hostBufLen }

def sliceRegionLeft (page : PageSize) (vma : VMA) (sliceAddr : Addr) : Except Stop VMA :=
  let overlapLen := (sliceAddr - vma.start).toNat
  sanityCheck page <|
    if vma.origHostBuf.isSome then
      if overlapLen ≥ vma.hostBufLen then
        { addrRange := ⟨sliceAddr, vma.stop⟩, origHostBuf := none, hostBuf := overlapLen, hostBufLen := 0 }
      else { vma with
        addrRange := ⟨sliceAddr, vma.stop⟩
        hostBuf := vma.hostBuf + overlapLen
        hostBufLen := vma.hostBufLen - overlapLen }
    else { vma with addrRange := ⟨sliceAddr, vma.stop⟩ }

def remap (page : PageSize) (vma : VMA) (newStart : Addr) : Except Stop VMA :=
  sanityCheck page { vma with addrRange := ⟨newStart, newStart + (vma.stop - vma.start)⟩ }

/-- The bytes that fillMemPages writes from an address on. -/
def fillMemPages (page : PageSize) (vma : VMA) (start : Addr) : List Byte :=
  match vma.origHostBuf with
  | none => []
  | some buffer =>
    let offset := (start - vma.start).toNat
    if offset < vma.hostBufLen then
      ((buffer.file.drop (buffer.offset + vma.hostBuf)).drop offset).take (min (vma.hostBufLen - offset) page.bytes.toNat)
    else []

end VMA

structure Entry where
  paddr : Addr
  flags : BitVec 64 := 0
  deriving DecidableEq, Repr

abbrev EmulationPageTable := Addr → Option Entry

namespace EmulationPageTable

def lookup (page : PageSize) (pTable : EmulationPageTable) (vaddr : Addr) : Option Entry := pTable (page.pageAlign vaddr)

/-- How often a loop comes round that takes a page from a size until nothing is left. -/
def pagesIn (page : PageSize) (size : Int) : Nat := (size.toNat + page.bytes.toNat - 1) / page.bytes.toNat

def clobberFlag : BitVec 64 := 1

def mapFrom (page : PageSize) (flags : BitVec 64) : Nat → EmulationPageTable → Addr → Addr → Except Stop EmulationPageTable
  | 0, pTable, _, _ => .ok pTable
  | count + 1, pTable, vaddr, paddr => do
    refuse ((pTable vaddr).isSome && flags &&& clobberFlag == 0) "EmulationPageTable::allocate: addr already mapped"
    mapFrom page flags count (Function.update pTable vaddr (some { paddr, flags })) (vaddr + page.bytes) (paddr + page.bytes)

def map (page : PageSize) (pTable : EmulationPageTable) (vaddr paddr : Addr) (size : Int) (flags : BitVec 64) :
    Except Stop EmulationPageTable := do
  check (page.pageOffset vaddr == 0) "pageOffset(vaddr) == 0"
  mapFrom page flags (pagesIn page size) pTable vaddr paddr

/-- remap of one page, as MemState calls it. -/
def remap (page : PageSize) (pTable : EmulationPageTable) (vaddr newVaddr : Addr) : Except Stop EmulationPageTable := do
  check (page.pageOffset vaddr == 0) "pageOffset(vaddr) == 0"
  check (page.pageOffset newVaddr == 0) "pageOffset(new_vaddr) == 0"
  check ((pTable vaddr).isSome && (pTable newVaddr).isNone) "old_it != pTable.end() && new_it == pTable.end()"
  return Function.update (Function.update pTable newVaddr (pTable vaddr)) vaddr none

def unmap (page : PageSize) (pTable : EmulationPageTable) (vaddr : Addr) : Except Stop EmulationPageTable := do
  check (page.pageOffset vaddr == 0) "pageOffset(vaddr) == 0"
  check (pTable vaddr).isSome "it != pTable.end()"
  return Function.update pTable vaddr none

def isUnmapped (page : PageSize) (pTable : EmulationPageTable) (vaddr : Addr) : Except Stop Bool := do
  check (page.pageOffset vaddr == 0) "pageOffset(vaddr) == 0"
  return (pTable vaddr).isNone

end EmulationPageTable

/-- What a process has of memory. -/
structure Process where
  pTable : EmulationPageTable := fun _ => none
  vmaList : List VMA := []
  stackBase : Addr := 0
  stackMin : Addr := 0
  maxStackSize : Addr := 0

/-- An address has this many values, so a loop over addresses that takes more turns than
that never ends. -/
@[irreducible] def turns : Nat := 2 ^ 64 + 1

/-- The loop of isUnmapped over the page table. -/
def lookFrom (page : PageSize) (pTable : EmulationPageTable) (stop : Addr) : Nat → Addr → Except Stop Bool
  | 0, _ => .error .hang
  | left + 1, start => do
    if start.ult stop then
      refuse (pTable.lookup page start).isSome "Someone allocated physical memory at VA without creating a VMA!"
      lookFrom page pTable stop left (start + page.bytes)
    else return true

def Process.isUnmapped (page : PageSize) (process : Process) (startAddr length : Addr) : Except Stop Bool := do
  if process.vmaList.any fun vma => vma.addrRange.intersects ⟨startAddr, startAddr + length⟩ then return false
  else lookFrom page process.pTable (startAddr + length) turns startAddr

def Process.mapRegion (page : PageSize) (process : Process) (startAddr length : Addr) (backing : Option (List Byte × Nat)) :
    Except Stop Process := do
  let unmapped ← process.isUnmapped page startAddr length
  check unmapped "isUnmapped(start_addr, length)"
  let vma ← VMA.create page ⟨startAddr, startAddr + length⟩ backing
  return { process with vmaList := process.vmaList ++ [vma] }

def VMA.trim (page : PageSize) (range : AddrRange) (vma : VMA) : Except Stop VMA :=
  if vma.start.ult range.start then vma.sliceRegionRight page range.start else vma.sliceRegionLeft page range.stop

/-- The loop of unmapRegion over the areas, from one of them on. -/
def unmapFrom (page : PageSize) (range : AddrRange) : List VMA → Except Stop (List VMA)
  | [] => .ok []
  | vma :: rest =>
    if vma.isStrictSuperset range then do
      let left ← vma.sliceRegionRight page range.start
      let right ← vma.sliceRegionLeft page range.stop
      return right :: rest ++ [left]
    else if vma.addrRange.isSubset range then unmapFrom page range rest
    else if vma.addrRange.intersects range then do
      let trimmed ← vma.trim page range
      let rest ← unmapFrom page range rest
      return trimmed :: rest
    else do
      let rest ← unmapFrom page range rest
      return vma :: rest

/-- unmap, for a page that may not be mapped. -/
def EmulationPageTable.unmapAny (page : PageSize) (pTable : EmulationPageTable) (startAddr : Addr) : Except Stop EmulationPageTable := do
  let unmapped ← pTable.isUnmapped page startAddr
  if unmapped then return pTable
  else pTable.unmap page startAddr

/-- The do-while loop of unmapRegion over the pages. -/
def unmapPages (page : PageSize) : Nat → EmulationPageTable → Addr → Addr → Except Stop EmulationPageTable
  | 0, _, _, _ => .error .hang
  | left + 1, pTable, startAddr, length => do
    let pTable ← pTable.unmapAny page startAddr
    if 0 < (length - page.bytes).toNat then unmapPages page left pTable (startAddr + page.bytes) (length - page.bytes)
    else return pTable

def Process.unmapRegion (page : PageSize) (process : Process) (startAddr length : Addr) : Except Stop Process := do
  let vmaList ← unmapFrom page ⟨startAddr, startAddr + length⟩ process.vmaList
  let pTable ← unmapPages page turns process.pTable startAddr length
  return { process with vmaList, pTable }

/-- The loop of remapRegion over the areas. The clones go to the end of the list, where the
loop comes to them too. -/
def remapFrom (page : PageSize) (range : AddrRange) (newStart : Addr) : Nat → List VMA → Except Stop (List VMA)
  | _, [] => .ok []
  | 0, _ :: _ => .error .hang
  | left + 1, vma :: rest =>
    if vma.isStrictSuperset range then do
      let before ← vma.sliceRegionRight page range.start
      let after ← vma.sliceRegionLeft page range.stop
      let middle ← vma.sliceRegionLeft page range.start
      let middle ← middle.sliceRegionRight page range.stop
      let middle ← middle.remap page newStart
      return middle :: rest ++ [before, after]
    else if vma.addrRange.isSubset range then do
      let moved ← vma.remap page (vma.start - range.start + newStart)
      let rest ← remapFrom page range newStart left rest
      return moved :: rest
    else if vma.addrRange.intersects range then
      if vma.start.ult range.start then do
        let clone ← vma.sliceRegionRight page range.start
        let moved ← vma.sliceRegionLeft page range.start
        let moved ← moved.remap page newStart
        let rest ← remapFrom page range newStart left (rest ++ [clone])
        return moved :: rest
      else do
        let clone ← vma.sliceRegionLeft page range.stop
        let moved ← vma.sliceRegionRight page range.stop
        let moved ← moved.remap page (newStart + moved.start - range.start)
        let rest ← remapFrom page range newStart left (rest ++ [clone])
        return moved :: rest
    else do
      let rest ← remapFrom page range newStart left rest
      return vma :: rest

/-- remap, for a page that may not be mapped. -/
def EmulationPageTable.remapAny (page : PageSize) (pTable : EmulationPageTable) (startAddr newStartAddr : Addr) :
    Except Stop EmulationPageTable := do
  let unmapped ← pTable.isUnmapped page startAddr
  if unmapped then return pTable
  else pTable.remap page startAddr newStartAddr

/-- The do-while loop of remapRegion over the pages. -/
def remapPages (page : PageSize) : Nat → EmulationPageTable → Addr → Addr → Addr → Except Stop EmulationPageTable
  | 0, _, _, _, _ => .error .hang
  | left + 1, pTable, startAddr, newStartAddr, length => do
    let pTable ← pTable.remapAny page startAddr newStartAddr
    if 0 < (length - page.bytes).toNat then
      remapPages page left pTable (startAddr + page.bytes) (newStartAddr + page.bytes) (length - page.bytes)
    else return pTable

def Process.remapRegion (page : PageSize) (process : Process) (startAddr newStartAddr length : Addr) : Except Stop Process := do
  let vmaList ← remapFrom page ⟨startAddr, startAddr + length⟩ newStartAddr (2 * process.vmaList.length) process.vmaList
  let pTable ← remapPages page turns process.pTable startAddr newStartAddr length
  return { process with vmaList, pTable }

inductive RegionEvent where
  | mapRegion (startAddr length : Addr) (backing : Option (List Byte × Nat))
  | unmapRegion (startAddr length : Addr)
  | remapRegion (startAddr newStartAddr length : Addr)
  /-- Whatever else is done to the page table. -/
  | paged (pTable : EmulationPageTable)

def Process.region (page : PageSize) (process : Process) : RegionEvent → Except Stop Process
  | .mapRegion startAddr length backing => process.mapRegion page startAddr length backing
  | .unmapRegion startAddr length => process.unmapRegion page startAddr length
  | .remapRegion startAddr newStartAddr length => process.remapRegion page startAddr newStartAddr length
  | .paged pTable => .ok { process with pTable }

def Process.step (page : PageSize) : Step Process RegionEvent RegionEvent Stop := fun process event => do
  let process ← process.region page event
  return (process, [event])

end ImcGem5.Sim
