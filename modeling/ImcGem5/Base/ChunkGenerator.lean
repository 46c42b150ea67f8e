import ImcGem5.Mem.PortProxy

/-! ChunkGenerator, with skips: the current chunk may be grown over bytes that are already handled,
so that its successor need not begin at a multiple of the chunk size. -/

namespace ImcGem5.Base.Chunking
open Lib
open Mem (Addr Abort require roundUp minAddr)

def isPowerOf2 (n : Addr) : Bool := n != 0 && n &&& (n - 1) == 0

structure ChunkGenerator where
  curAddr : Addr
  nextAddr : Addr
  curSize : Addr
  nextSize : Addr
  sizeLeft : Addr
  startAddr : Addr
  chunkSize : Addr
  deriving DecidableEq

namespace ChunkGenerator

/-- The constructor. -/
def make (startAddr totalSize chunkSize : Addr) : Except Abort ChunkGenerator := do
  require (chunkSize == 0 || isPowerOf2 chunkSize) "chunkSize == 0 || isPowerOf2(chunkSize)"
  let nextAddr := if chunkSize = 0 then startAddr + totalSize
    else
      let nextAddr := roundUp startAddr chunkSize
      let nextAddr := if startAddr = nextAddr then nextAddr + chunkSize else nextAddr
      minAddr nextAddr (startAddr + totalSize)
  let curSize := nextAddr - startAddr
  let sizeLeft := totalSize - curSize
  return { curAddr := startAddr, nextAddr, curSize, nextSize := minAddr sizeLeft chunkSize, sizeLeft, startAddr, chunkSize }

def addr (gen : ChunkGenerator) : Addr := gen.curAddr

def size (gen : ChunkGenerator) : Addr := gen.curSize

def complete (gen : ChunkGenerator) : Addr := gen.curAddr - gen.startAddr

def done (gen : ChunkGenerator) : Bool := gen.curSize == 0

def last (gen : ChunkGenerator) : Bool := gen.sizeLeft == 0

def setNext (gen : ChunkGenerator) (next : Addr) : Except Abort ChunkGenerator := do
  require (decide (gen.nextAddr ≤ next)) "next >= nextAddr"
  let skipping := minAddr (next - gen.nextAddr) gen.sizeLeft
  let sizeLeft := gen.sizeLeft - skipping
  let curSize := gen.curSize + skipping
  require (gen.chunkSize != 0) "chunkSize"
  let nextSize := roundUp next gen.chunkSize - next
  let nextSize := if nextSize = 0 then minAddr sizeLeft gen.chunkSize else nextSize
  return { gen with sizeLeft, curSize, nextAddr := next, nextSize }

def next (gen : ChunkGenerator) : ChunkGenerator × Bool :=
  if gen.last then ({ gen with curSize := 0 }, false)
  else
    let sizeLeft := gen.sizeLeft - gen.nextSize
    ({ gen with
      curAddr := gen.nextAddr
      curSize := gen.nextSize
      sizeLeft
      nextAddr := gen.nextAddr + gen.nextSize
      nextSize := minAddr sizeLeft gen.chunkSize }, true)

end ChunkGenerator

inductive ChunkOp where
  | next
  | setNext (next : Addr)
  deriving DecidableEq

/-- A chunk as its user leaves it, and whether setNext was called while it was the current one. -/
structure Chunk where
  addr : Addr
  size : Addr
  grown : Bool
  deriving DecidableEq

structure Walk where
  gen : ChunkGenerator
  grown : Bool := false
  deriving DecidableEq

def Walk.current (walk : Walk) : List Chunk := if walk.gen.done then [] else [⟨walk.gen.addr, walk.gen.size, walk.grown⟩]

def Walk.step : Step Walk ChunkOp Chunk Abort := fun walk op =>
  match op with
  | .next => .ok ({ gen := walk.gen.next.1 }, walk.current)
  | .setNext next => do
    let gen ← walk.gen.setNext next
    return ({ gen, grown := true }, [])

/-- The first byte of the next chunk is not before the one that it would have. -/
def Walk.forward (walk : Walk) : ChunkOp → Prop
  | .next => True
  | .setNext next => walk.gen.nextAddr ≤ next

instance (walk : Walk) (op : ChunkOp) : Decidable (walk.forward op) := by
  unfold Walk.forward
  cases op <;> infer_instance

end ImcGem5.Base.Chunking
