import ImcGem5.Riscv.Tlb

/-! Checkpoints of the RISC-V TLB, and what can be told of one from outside. The scalars of a
checkpoint are kept as they are; writing them to text and back is in Sim/Serialize. -/

namespace ImcGem5.Riscv
open Lib Base Mem

structure EntrySection where
  paddr : Addr
  vaddr : Addr
  logBytes : Nat
  asid : BitVec 16
  pte : BitVec 64
  lruSeq : BitVec 64
  deriving DecidableEq, Repr

namespace TlbEntry

def serialize (entry : TlbEntry) : EntrySection :=
  { paddr := entry.paddr, vaddr := entry.vaddr, logBytes := entry.logBytes, asid := entry.asid, pte := entry.pte, lruSeq := entry.lruSeq }

/-- The handle is not part of the section. -/
def unserialize (entry : TlbEntry) (cp : EntrySection) : TlbEntry :=
  { entry with paddr := cp.paddr, vaddr := cp.vaddr, logBytes := cp.logBytes, asid := cp.asid, pte := cp.pte, lruSeq := cp.lruSeq }

end TlbEntry

/-- The section of a TLB. Section `Entry%d` is the one at that place of the list. -/
structure TlbSection where
  size : Nat
  lruSeq : BitVec 64
  entries : List EntrySection
  deriving DecidableEq, Repr

namespace TLB

/-- Only store the entries in use. -/
def serialize (tlb : TLB) : TlbSection :=
  { size := tlb.tlb.length - tlb.freeList.length
    lruSeq := tlb.lruSeq
    entries := (tlb.tlb.filter (·.trieHandle.isSome)).map (·.serialize) }

/-- The loop of unserialize, from section `x` on for so many. -/
def restoreEntries (cp : TlbSection) : Nat → Nat → TLB → Except Fault TLB
  | 0, _, tlb => .ok tlb
  | sections + 1, x, tlb =>
    match tlb.freeList with
    | [] => .error .wild
    | idx :: freeList => do
      let newEntry ← tlb.entry idx
      match cp.entries[x]? with
      | none => .error (.panic "Can't unserialize '%s:%s'")
      | some section_ =>
        let newEntry := newEntry.unserialize section_
        let key := buildKey newEntry.vaddr newEntry.asid
        let (trie, handle) ← tlb.trie.insert key (64 - newEntry.logBytes) idx
        restoreEntries cp sections (x + 1)
          { tlb with trie, freeList, tlb := tlb.tlb.set idx { newEntry with trieHandle := some handle } }

/-- Do not allow to restore with a smaller tlb. -/
def unserialize (tlb : TLB) (cp : TlbSection) : Except Fault TLB :=
  if cp.size > tlb.tlb.length then .error (.panic "TLB size less than the one in checkpoint!")
  else restoreEntries cp cp.size 0 { tlb with lruSeq := cp.lruSeq }

/-- The slot that evictLRU removes. -/
def lru (tlb : TLB) : Except Fault Nat :=
  match tlb.tlb with
  | [] => .error .wild
  | first :: rest => .ok (leastRecent rest 1 0 first.lruSeq)

/-- The entry that makes room for a page, if one has to. -/
def evicted (tlb : TLB) (vpn : Addr) (asid : BitVec 16) : Except Fault (Option TlbEntry) := do
  match ← tlb.trie.lookup (buildKey vpn asid) with
  | some _ => return none
  | none =>
    if tlb.freeList.isEmpty then
      let lru ← tlb.lru
      let entry ← tlb.entry lru
      return some entry
    else return none

end TLB

inductive TlbEvent where
  | evicted (entry : EntrySection)
  | inserted (entry : EntrySection)
  | looked (found : Option EntrySection)
  | removed
  deriving DecidableEq, Repr

def TLB.watch : Step TLB TlbOp TlbEvent Fault
  | tlb, .insert vpn entry => do
    let gone ← tlb.evicted vpn entry.asid
    let (tlb, idx) ← tlb.insert vpn entry
    let newEntry ← tlb.entry idx
    return (tlb, (gone.map fun old => .evicted old.serialize).toList ++ [.inserted newEntry.serialize])
  | tlb, .lookup vpn asid hidden => do
    let (tlb, found) ← tlb.lookup vpn asid hidden
    match found with
    | none => return (tlb, [.looked none])
    | some idx =>
      let entry ← tlb.entry idx
      return (tlb, [.looked (some entry.serialize)])
  | tlb, .demapPage vpn asn => do
    let tlb ← tlb.demapPage vpn asn
    return (tlb, [.removed])
  | tlb, .flushAll => do
    let tlb ← tlb.flushAll
    return (tlb, [.removed])

end ImcGem5.Riscv
