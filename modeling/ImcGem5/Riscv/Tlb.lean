import ImcGem5.Base.Trie
import ImcGem5.Mem.Packet

/-! The RISC-V TLB: a vector of entries, a list of the free ones and a trie that finds
an entry by its ASID and page. Statistics are left out. -/

namespace ImcGem5.Riscv
open Lib Base Mem

/-- BaseMMU::Mode -/
inductive AccessMode where
  | read
  | write
  | execute
  deriving DecidableEq, Repr

structure TlbEntry where
  paddr : Addr := 0
  vaddr : Addr := 0
  logBytes : Nat := 0
  asid : BitVec 16 := 0
  pte : BitVec 64 := 0
  trieHandle : Option Nat := none
  lruSeq : BitVec 64 := 0
  deriving DecidableEq, Repr

namespace TlbEntry

/-- Pages are smaller than the address space, so the shift loses nothing. -/
def size (entry : TlbEntry) : Addr := 1#64 <<< entry.logBytes

/-- `~(size() - 1)` -/
def pageMask (entry : TlbEntry) : Addr := ~~~(entry.size - 1)

end TlbEntry

def buildKey (vpn : Addr) (asid : BitVec 16) : BitVec 64 := (asid.setWidth 64 <<< 48) ||| vpn

/-- The entries of the trie point into the vector. -/
structure TLB where
  tlb : List TlbEntry
  trie : Trie 64 Nat := Trie.empty
  freeList : List Nat
  lruSeq : BitVec 64 := 0

namespace TLB

def new (size : Nat) : TLB := { tlb := List.replicate size {}, freeList := List.range size }

def entry (tlb : TLB) (idx : Nat) : Except Fault TlbEntry :=
  match tlb.tlb[idx]? with
  | some entry => .ok entry
  | none => .error .wild

def remove (tlb : TLB) (idx : Nat) : Except Fault TLB := do
  let entry ← tlb.entry idx
  match entry.trieHandle with
  | none => .error (.assertion "tlb[idx].trieHandle")
  | some handle =>
    let (trie, _) ← tlb.trie.remove handle
    return { tlb with
      trie
      tlb := tlb.tlb.set idx { entry with trieHandle := none }
      freeList := tlb.freeList ++ [idx] }

/-- The loop of evictLRU, on the sequence numbers from `i` on. -/
def leastRecent : List TlbEntry → Nat → Nat → BitVec 64 → Nat
  | [], _, lru, _ => lru
  | entry :: rest, i, lru, least =>
    if entry.lruSeq < least then leastRecent rest (i + 1) i entry.lruSeq else leastRecent rest (i + 1) lru least

def evictLRU (tlb : TLB) : Except Fault TLB :=
  match tlb.tlb with
  | [] => .error .wild
  | first :: rest => tlb.remove (leastRecent rest 1 0 first.lruSeq)

/-- The entry found, by its place in the vector. -/
def lookup (tlb : TLB) (vpn : Addr) (asid : BitVec 16) (hidden : Bool) : Except Fault (TLB × Option Nat) := do
  match ← tlb.trie.lookup (buildKey vpn asid) with
  | none => return (tlb, none)
  | some idx =>
    if hidden then return (tlb, some idx)
    else
      let entry ← tlb.entry idx
      let lruSeq := tlb.lruSeq + 1
      return ({ tlb with lruSeq, tlb := tlb.tlb.set idx { entry with lruSeq } }, some idx)

/-- Take the first free entry, and evict one if there is none. -/
def takeFree (tlb : TLB) : Except Fault (TLB × Nat) := do
  let tlb ← (if tlb.freeList.isEmpty then tlb.evictLRU else .ok tlb)
  match tlb.freeList with
  | [] => .error .wild
  | idx :: freeList => return ({ tlb with freeList }, idx)

def insert (tlb : TLB) (vpn : Addr) (entry : TlbEntry) : Except Fault (TLB × Nat) := do
  match ← tlb.lookup vpn entry.asid true with
  | (tlb, some idx) =>
    let newEntry ← tlb.entry idx
    Fault.ensure (newEntry.vaddr == vpn) "newEntry->vaddr == vpn"
    return ({ tlb with tlb := tlb.tlb.set idx { newEntry with pte := entry.pte } }, idx)
  | (tlb, none) =>
    let (tlb, idx) ← tlb.takeFree
    let _ ← tlb.entry idx
    let key := buildKey vpn entry.asid
    let lruSeq := tlb.lruSeq + 1
    let (trie, handle) ← tlb.trie.insert key (64 - entry.logBytes) idx
    return ({ tlb with
      trie
      lruSeq
      tlb := tlb.tlb.set idx { entry with lruSeq, vaddr := vpn, trieHandle := some handle } }, idx)

def removeEach (hit : TlbEntry → Bool) : Nat → Nat → TLB → Except Fault TLB
  | 0, _, tlb => .ok tlb
  | places + 1, i, tlb => do
    let entry ← tlb.entry i
    if entry.trieHandle.isSome && hit entry then
      let tlb ← tlb.remove i
      removeEach hit places (i + 1) tlb
    else removeEach hit places (i + 1) tlb

def flushAll (tlb : TLB) : Except Fault TLB := removeEach (fun _ => true) tlb.tlb.length 0 tlb

def demapPage (tlb : TLB) (vpn : Addr) (asn : BitVec 64) : Except Fault TLB :=
  let asid := asn.setWidth 16
  if vpn = 0 ∧ asid = 0 then tlb.flushAll
  else if vpn ≠ 0 ∧ asid ≠ 0 then do
    match ← tlb.lookup vpn asid true with
    | (tlb, some idx) => tlb.remove idx
    | (tlb, none) => return tlb
  else
    removeEach (fun entry => (vpn == 0 || vpn &&& entry.pageMask == entry.vaddr) && (asid == 0 || entry.asid == asid))
      tlb.tlb.length 0 tlb

end TLB

structure Page where
  vaddr : Addr
  logBytes : Nat
  asid : BitVec 16
  deriving DecidableEq, Repr

namespace Page

def mask (page : Page) : Addr := ~~~(1#64 <<< page.logBytes - 1)

def covers (page : Page) (vpn : Addr) : Bool := vpn &&& page.mask == page.vaddr

/-- What demapPage asks of a page, 0 standing for all. -/
def hits (page : Page) (vpn : Addr) (asid : BitVec 16) : Bool :=
  (vpn == 0 || page.covers vpn) && (asid == 0 || page.asid == asid)

end Page

def TlbEntry.page (entry : TlbEntry) : Page := ⟨entry.vaddr, entry.logBytes, entry.asid⟩

inductive TlbOp where
  | insert (vpn : Addr) (entry : TlbEntry)
  | lookup (vpn : Addr) (asid : BitVec 16) (hidden : Bool)
  | demapPage (vpn : Addr) (asn : BitVec 64)
  | flushAll
  deriving DecidableEq, Repr

inductive TlbLabel where
  | inserted (entry : TlbEntry)
  | looked (vpn : Addr) (asid : BitVec 16) (found : Option TlbEntry)
  | demapped (vpn : Addr) (asid : BitVec 16)
  | flushed
  deriving DecidableEq, Repr

def TLB.step : Step TLB TlbOp TlbLabel Fault
  | tlb, .insert vpn entry => do
    let (tlb, _) ← tlb.insert vpn entry
    return (tlb, [.inserted { entry with vaddr := vpn }])
  | tlb, .lookup vpn asid hidden => do
    let (tlb, found) ← tlb.lookup vpn asid hidden
    match found with
    | none => return (tlb, [.looked vpn asid none])
    | some idx =>
      let entry ← tlb.entry idx
      return (tlb, [.looked vpn asid (some entry)])
  | tlb, .demapPage vpn asn => do
    let tlb ← tlb.demapPage vpn asn
    return (tlb, [.demapped vpn (asn.setWidth 16)])
  | tlb, .flushAll => do
    let tlb ← tlb.flushAll
    return (tlb, [.flushed])

end ImcGem5.Riscv
