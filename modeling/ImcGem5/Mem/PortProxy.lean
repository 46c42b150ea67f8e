import ImcGem5.Lib.Heap
import ImcGem5.Mem.Packet

/-! Port proxies: reading and writing blobs of memory outside of simulated time. A blob
is cut where the translation of its addresses may change, and each part again at the
lines of a cache. Functional accesses are those of a memory without caches, and request
flags, which only they read, are left out. -/

namespace ImcGem5.Mem
open Lib

/-- The smallest multiple of a power of two that is not less, if it fits. -/
def roundUp (val align : Addr) : Addr := (val + (align - 1)) &&& ~~~(align - 1)

/-- std::min on addresses. -/
def minAddr (a b : Addr) : Addr := if b < a then b else a

theorem minAddr_le_left (a b : Addr) : minAddr a b ≤ a := by
  unfold minAddr
  split
  next less => exact BitVec.le_of_lt less
  · exact BitVec.le_refl a

structure ChunkGenerator where
  curAddr : Addr
  nextAddr : Addr
  curSize : Addr
  nextSize : Addr
  sizeLeft : Addr
  chunkSize : Addr
  bounded : nextSize ≤ sizeLeft

namespace ChunkGenerator

/-- The constructor. -/
def make (startAddr totalSize chunkSize : Addr) : ChunkGenerator :=
  let nextAddr := if chunkSize = 0 then startAddr + totalSize
    else
      let nextAddr := roundUp startAddr chunkSize
      let nextAddr := if startAddr = nextAddr then nextAddr + chunkSize else nextAddr
      minAddr nextAddr (startAddr + totalSize)
  let curSize := nextAddr - startAddr
  let sizeLeft := totalSize - curSize
  { curAddr := startAddr, nextAddr, curSize, nextSize := minAddr sizeLeft chunkSize, sizeLeft, chunkSize
    bounded := minAddr_le_left _ _ }

def done (gen : ChunkGenerator) : Bool := gen.curSize == 0

def last (gen : ChunkGenerator) : Bool := gen.sizeLeft == 0

def next (gen : ChunkGenerator) : ChunkGenerator :=
  if gen.last then { gen with curSize := 0 }
  else
    let sizeLeft := gen.sizeLeft - gen.nextSize
    { gen with
      curAddr := gen.nextAddr
      curSize := gen.nextSize
      sizeLeft
      nextAddr := gen.nextAddr + gen.nextSize
      nextSize := minAddr sizeLeft gen.chunkSize
      bounded := minAddr_le_left _ _ }

def left (gen : ChunkGenerator) : Nat := if gen.curSize = 0 then 0 else gen.sizeLeft.toNat + 1

theorem left_next {gen : ChunkGenerator} (more : ¬ gen.done = true) : gen.next.left < gen.left := by
  have nonzero : gen.curSize ≠ 0 := by simpa [done] using more
  rw [left, left, if_neg nonzero]
  unfold next
  split
  · exact Nat.zero_lt_succ _
  next notLast =>
    split
    · exact Nat.zero_lt_succ _
    next some =>
      have bounded : gen.nextSize.toNat ≤ gen.sizeLeft.toNat := gen.bounded
      have positive : 0 < gen.nextSize.toNat := Nat.pos_of_ne_zero fun zero => some (BitVec.eq_of_toNat_eq zero)
      rw [BitVec.toNat_sub_of_le gen.bounded]
      omega

end ChunkGenerator

/-- Bytes go to a buffer, from where each is in memory. -/
def load (memory : Addr → Byte) (place : Nat → Addr) (buffer : Nat → Byte) (p : Nat) : Nat → Nat → Byte
  | 0 => buffer
  | count + 1 => Function.update (load memory place buffer p count) (p + count) (memory (place count))

def store (place : Nat → Addr) (buffer : Nat → Byte) (p : Nat) (memory : Addr → Byte) : Nat → Addr → Byte
  | 0 => memory
  | count + 1 => Function.update (store place buffer p memory count) (place count) (buffer (p + count))

def consecutive (addr : Addr) (i : Nat) : Addr := addr + BitVec.ofNat 64 i

namespace PortProxy

/-- The loop of readBlobPhys, with a packet for each chunk. -/
def readChunks (memory : Addr → Byte) (gen : ChunkGenerator) (buffer : Nat → Byte) (p : Nat) : Nat → Byte :=
  if gen.done then buffer
  else readChunks memory gen.next (load memory (consecutive gen.curAddr) buffer p gen.curSize.toNat) (p + gen.curSize.toNat)
termination_by gen.left
decreasing_by exact ChunkGenerator.left_next ‹_›

def writeChunks (gen : ChunkGenerator) (buffer : Nat → Byte) (p : Nat) (memory : Addr → Byte) : Addr → Byte :=
  if gen.done then memory
  else writeChunks gen.next buffer (p + gen.curSize.toNat)
    (store (consecutive gen.curAddr) buffer p memory gen.curSize.toNat)
termination_by gen.left
decreasing_by exact ChunkGenerator.left_next ‹_›

/-- What an address becomes as an argument of type int. -/
def toInt (size : Addr) : BitVec 32 := size.setWidth 32

def readBlobPhys (cacheLineSize : Addr) (memory : Addr → Byte) (addr : Addr) (buffer : Nat → Byte) (p : Nat) (size : BitVec 32) :
    Nat → Byte := readChunks memory (.make addr (size.signExtend 64) cacheLineSize) buffer p

def writeBlobPhys (cacheLineSize : Addr) (addr : Addr) (buffer : Nat → Byte) (p : Nat) (size : BitVec 32) (memory : Addr → Byte) :
    Addr → Byte := writeChunks (.make addr (size.signExtend 64) cacheLineSize) buffer p memory

end PortProxy

namespace TranslationGen

structure Range where
  vaddr : Addr
  size : Addr
  paddr : Addr := 0
  fault : Bool := false

end TranslationGen

structure MMUTranslationGen where
  start : Addr
  size : Addr
  pageBytes : Addr
  translateFunctional : Addr → Option Addr

namespace MMUTranslationGen

def translate (gen : MMUTranslationGen) (range : TranslationGen.Range) : TranslationGen.Range :=
  let next := roundUp range.vaddr gen.pageBytes
  let next := if next = range.vaddr then next + gen.pageBytes else next
  let size := minAddr range.size (next - range.vaddr)
  match gen.translateFunctional range.vaddr with
  | some paddr => { range with size, paddr, fault := false }
  | none => { range with size, fault := true }

/-- TranslationGenConstIterator::update, with nothing at the end. -/
def update (gen : MMUTranslationGen) (vaddr : Addr) : Option TranslationGen.Range :=
  let size := gen.size - (vaddr - gen.start)
  if size = 0 then none else some (gen.translate { vaddr, size })

end MMUTranslationGen

namespace TranslatingPortProxy

/-- The loop of tryOnBlob, from an address on. `func` is what it does with each part. -/
def tryOnBlob {σ : Type} (gen : MMUTranslationGen) (fixupRange : TranslationGen.Range → Bool) (func : TranslationGen.Range → σ → σ) :
    Nat → Addr → Bool → σ → Except Fault (Bool × σ)
  | 0, _, _, _ => .error .stuck
  | turns + 1, vaddr, faulting, state =>
    match gen.update vaddr with
    | none => .ok (true, state)
    | some range =>
      if range.fault then
        if faulting || !fixupRange range then .ok (false, state)
        else tryOnBlob gen fixupRange func turns vaddr true state
      else tryOnBlob gen fixupRange func turns (vaddr + range.size) false (func range state)

structure Params where
  cacheLineSize : Addr
  pageBytes : Addr
  translateFunctional : Addr → Option Addr
  fixupRange : TranslationGen.Range → Bool

def gen (params : Params) (addr : Addr) (size : BitVec 32) : MMUTranslationGen :=
  ⟨addr, size.signExtend 64, params.pageBytes, params.translateFunctional⟩

/-- No part is visited more than twice. -/
def turns (size : BitVec 32) : Nat := 2 * size.toNat + 2

def tryReadBlob (params : Params) (memory : Addr → Byte) (addr : Addr) (buffer : Nat → Byte) (size : BitVec 32) :
    Except Fault (Bool × (Nat → Byte) × Nat) :=
  tryOnBlob (gen params addr size) params.fixupRange
    (fun range (buffer, p) => (PortProxy.readBlobPhys params.cacheLineSize memory range.paddr buffer p (PortProxy.toInt range.size),
      p + range.size.toNat)) (turns size) addr false (buffer, 0)

def tryWriteBlob (params : Params) (addr : Addr) (buffer : Nat → Byte) (size : BitVec 32) (memory : Addr → Byte) :
    Except Fault (Bool × (Addr → Byte) × Nat) :=
  tryOnBlob (gen params addr size) params.fixupRange
    (fun range (memory, p) => (PortProxy.writeBlobPhys params.cacheLineSize range.paddr buffer p (PortProxy.toInt range.size) memory,
      p + range.size.toNat)) (turns size) addr false (memory, 0)

end TranslatingPortProxy

end ImcGem5.Mem
