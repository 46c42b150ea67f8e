import ImcGem5.Lib.Heap
import ImcGem5.Mem.Packet
import Mathlib.Data.List.AList
import Mathlib.Data.Nat.Log

/-! FALRU: the tags of a fully associative cache in LRU order, and the counters it keeps
for smaller caches of the same kind. Blocks live in a heap, each at its index in blks.
Data, latencies and the statistics of BaseTags are left out. -/

namespace ImcGem5.Mem
open Lib

abbrev CachesMask := BitVec 32

structure FALRUBlk where
  prev : Option Nat := none
  next : Option Nat := none
  inCachesMask : CachesMask := 0
  valid : Bool := false
  secure : Bool := false
  tag : Addr := BitVec.allOnes 64
  deriving DecidableEq, Repr

structure FALRUParams where
  blkSize : Nat
  size : Nat
  minTrackedSize : Nat

namespace FALRUParams

def numBlocks (params : FALRUParams) : Nat := params.size / params.blkSize

def numTrackedCaches (params : FALRUParams) : Nat :=
  if params.size > params.minTrackedSize then Nat.log2 params.size - Nat.log2 params.minTrackedSize else 0

def inAllCachesMask (params : FALRUParams) : CachesMask := BitVec.ofNat 32 (2 ^ params.numTrackedCaches - 1)

/-- blkAlign -/
def extractTag (params : FALRUParams) (addr : Addr) : Addr := addr &&& ~~~BitVec.ofNat 64 (params.blkSize - 1)

end FALRUParams

/-- `boundaries` is the vector of pointers to the last block that fits in each tracked
cache, and `hits` and `misses` are the vectors of counters, the last one being that of
the cache itself. -/
structure FALRU where
  blks : Heap FALRUBlk
  head : Nat
  tail : Nat
  tagHash : AList (fun _ : Addr × Bool => Nat) := ∅
  boundaries : Nat → Option Nat := fun _ => none
  hits : Nat → Nat := fun _ => 0
  misses : Nat → Nat := fun _ => 0
  accesses : Nat := 0

def deref (pointer : Option Nat) : Except Fault Nat :=
  match pointer with
  | some address => .ok address
  | none => .error .wild

namespace CacheTracking

/-- The loop of init, from a block on. -/
def initFrom (params : FALRUParams) (tail : Nat) : Nat → Heap FALRUBlk → (Nat → Option Nat) → Option Nat → Nat → Nat → CachesMask →
    Nat → Except Fault (Heap FALRUBlk × (Nat → Option Nat))
  | _, blks, boundaries, none, _, _, _, _ => .ok (blks, boundaries)
  | 0, _, _, some _, _, _, _, _ => .error .stuck
  | turns + 1, blks, boundaries, some blk, currSize, trackedCacheSize, inCachesMask, j => do
    let blks ← blks.modify blk fun object => { object with inCachesMask }
    let object ← blks.read blk
    let currSize := currSize + params.blkSize
    if currSize = trackedCacheSize ∧ blk ≠ tail then
      initFrom params tail turns blks (Function.update boundaries j (some blk)) object.next currSize (trackedCacheSize <<< 1)
        (inCachesMask &&& ~~~(1#32 <<< j)) (j + 1)
    else initFrom params tail turns blks boundaries object.next currSize trackedCacheSize inCachesMask j

def init (params : FALRUParams) (cache : FALRU) : Except Fault FALRU := do
  let start := if params.numTrackedCaches ≠ 0 then some cache.head else none
  let (blks, boundaries) ← initFrom params cache.tail (params.numBlocks + 1) cache.blks cache.boundaries start 0
    params.minTrackedSize params.inAllCachesMask 0
  return { cache with blks, boundaries }

/-- One turn of the loop of moveBlockToHead. -/
def boundaryToHead (updateCachesMask : CachesMask) (blk : Nat) (tracked : Heap FALRUBlk × (Nat → Option Nat)) (i : Nat) :
    Except Fault (Heap FALRUBlk × (Nat → Option Nat)) := do
  let (blks, boundaries) := tracked
  let currentCacheMask := 1#32 <<< i
  if currentCacheMask &&& updateCachesMask != 0 then
    let boundary ← deref (boundaries i)
    let blks ← blks.modify boundary fun object => { object with inCachesMask := object.inCachesMask &&& ~~~currentCacheMask }
    let object ← blks.read boundary
    return (blks, Function.update boundaries i object.prev)
  else if boundaries i = some blk then
    let object ← blks.read blk
    return (blks, Function.update boundaries i object.prev)
  else return (blks, boundaries)

def moveBlockToHead (params : FALRUParams) (cache : FALRU) (blk : Nat) : Except Fault FALRU := do
  let object ← cache.blks.read blk
  let updateCachesMask := params.inAllCachesMask ^^^ object.inCachesMask
  let (blks, boundaries) ← (List.range params.numTrackedCaches).foldlM (boundaryToHead updateCachesMask blk)
    (cache.blks, cache.boundaries)
  let blks ← blks.modify blk fun object => { object with inCachesMask := params.inAllCachesMask }
  return { cache with blks, boundaries }

/-- One turn of the loop of moveBlockToTail. -/
def boundaryToTail (updateCachesMask : CachesMask) (blk : Nat) (tracked : Heap FALRUBlk × (Nat → Option Nat)) (i : Nat) :
    Except Fault (Heap FALRUBlk × (Nat → Option Nat)) := do
  let (blks, boundaries) := tracked
  let currentCacheMask := 1#32 <<< i
  if currentCacheMask &&& updateCachesMask != 0 then
    let boundary ← deref (boundaries i)
    let object ← blks.read boundary
    let moved ← blks.read blk
    let onward := if object.next = some blk then moved.next else object.next
    let boundary ← deref onward
    let blks ← blks.modify boundary fun object => { object with inCachesMask := object.inCachesMask ||| currentCacheMask }
    return (blks, Function.update boundaries i onward)
  else return (blks, boundaries)

def moveBlockToTail (params : FALRUParams) (cache : FALRU) (blk : Nat) : Except Fault FALRU := do
  let object ← cache.blks.read blk
  let (blks, boundaries) ← (List.range params.numTrackedCaches).foldlM (boundaryToTail object.inCachesMask blk)
    (cache.blks, cache.boundaries)
  let blks ← blks.modify blk fun object => { object with inCachesMask := 0 }
  return { cache with blks, boundaries }

/-- Whether an access counts as a hit in the ith cache. -/
def hitIn (params : FALRUParams) (object : Option FALRUBlk) (i : Nat) : Bool :=
  match object with
  | none => false
  | some object => if i < params.numTrackedCaches then 1#32 <<< i &&& object.inCachesMask != 0 else object.valid

def recordAccess (params : FALRUParams) (cache : FALRU) (blk : Option Nat) : Except Fault FALRU := do
  let object ← (match blk with
    | none => .ok none
    | some blk => some <$> cache.blks.read blk)
  return { cache with
    hits := fun i => if i ≤ params.numTrackedCaches ∧ hitIn params object i then cache.hits i + 1 else cache.hits i
    misses := fun i => if i ≤ params.numTrackedCaches ∧ !hitIn params object i then cache.misses i + 1 else cache.misses i
    accesses := cache.accesses + 1 }

end CacheTracking

namespace FALRU

/-- Every block between its neighbours. -/
def tagsInit (params : FALRUParams) : Except Fault FALRU :=
  let last := params.numBlocks - 1
  let cell := fun i => if i < params.numBlocks then
    some { prev := if i = 0 then none else some (i - 1), next := if i = last then none else some (i + 1) : FALRUBlk } else none
  CacheTracking.init params { blks := ⟨cell, params.numBlocks⟩, head := 0, tail := last }

/-- Takes a block out from between its neighbours. -/
def unlink (cache : FALRU) (blk : Nat) : Except Fault FALRU := do
  let object ← cache.blks.read blk
  let before ← deref object.prev
  let blks ← cache.blks.modify before fun other => { other with next := object.next }
  let after ← deref object.next
  let blks ← blks.modify after fun other => { other with prev := object.prev }
  return { cache with blks }

def moveToHead (params : FALRUParams) (cache : FALRU) (blk : Nat) : Except Fault FALRU :=
  if blk ≠ cache.head then do
    let cache ← CacheTracking.moveBlockToHead params cache blk
    let cache ← (if blk = cache.tail then do
        let object ← cache.blks.read blk
        Fault.ensure object.next.isNone "blk->next == nullptr"
        let tail ← deref object.prev
        let blks ← cache.blks.modify tail fun other => { other with next := none }
        return { cache with blks, tail }
      else cache.unlink blk)
    let blks ← cache.blks.modify blk fun object => { object with next := some cache.head, prev := none }
    let blks ← blks.modify cache.head fun object => { object with prev := some blk }
    return { cache with blks, head := blk }
  else .ok cache

def moveToTail (params : FALRUParams) (cache : FALRU) (blk : Nat) : Except Fault FALRU :=
  if blk ≠ cache.tail then do
    let cache ← CacheTracking.moveBlockToTail params cache blk
    let cache ← (if blk = cache.head then do
        let object ← cache.blks.read blk
        Fault.ensure object.prev.isNone "blk->prev == nullptr"
        let head ← deref object.next
        let blks ← cache.blks.modify head fun other => { other with prev := none }
        return { cache with blks, head }
      else cache.unlink blk)
    let blks ← cache.blks.modify blk fun object => { object with prev := some cache.tail, next := none }
    let blks ← blks.modify cache.tail fun object => { object with next := some blk }
    return { cache with blks, tail := blk }
  else .ok cache

def invalidate (params : FALRUParams) (cache : FALRU) (blk : Nat) : Except Fault FALRU := do
  let object ← cache.blks.read blk
  let key := (object.tag, object.secure)
  Fault.ensure (cache.tagHash.lookup key).isSome "num_erased == 1"
  -- BaseTags::invalidate
  Fault.ensure object.valid "blk->isValid()"
  let blks ← cache.blks.modify blk fun object => { object with valid := false, secure := false, tag := BitVec.allOnes 64 }
  moveToTail params { cache with blks, tagHash := cache.tagHash.erase key } blk

def findBlock (params : FALRUParams) (cache : FALRU) (addr : Addr) (isSecure : Bool) : Except Fault (Option Nat) :=
  let tag := params.extractTag addr
  match cache.tagHash.lookup (tag, isSecure) with
  | none => .ok none
  | some blk => do
    let object ← cache.blks.read blk
    Fault.ensure (!object.valid || object.tag == tag) "blk->getTag() == tag"
    Fault.ensure (!object.valid || object.secure == isSecure) "blk->isSecure() == is_secure"
    return some blk

/-- The move that accessBlock makes on a hit. -/
def touch (params : FALRUParams) (cache : FALRU) : Option Nat → Except Fault FALRU
  | none => .ok cache
  | some blk => do
    let object ← cache.blks.read blk
    if object.valid then moveToHead params cache blk else return cache

/-- The access is recorded after the block has moved. -/
def accessBlock (params : FALRUParams) (cache : FALRU) (addr : Addr) (isSecure : Bool) : Except Fault (FALRU × Option Nat) := do
  let blk ← cache.findBlock params addr isSecure
  let cache ← cache.touch params blk
  let cache ← CacheTracking.recordAccess params cache blk
  return (cache, blk)

def findVictim (cache : FALRU) : Nat := cache.tail

def insertBlock (params : FALRUParams) (cache : FALRU) (addr : Addr) (isSecure : Bool) (blk : Nat) : Except Fault FALRU := do
  let object ← cache.blks.read blk
  Fault.ensure (object.inCachesMask == 0) "falruBlk->inCachesMask == 0"
  -- BaseTags::insertBlock
  Fault.ensure (!object.valid) "!blk->isValid()"
  let tag := params.extractTag addr
  let blks ← cache.blks.modify blk fun object => { object with valid := true, tag, secure := object.secure || isSecure }
  let cache ← moveToHead params { cache with blks } blk
  let object ← cache.blks.read blk
  return { cache with tagHash := cache.tagHash.insert (object.tag, object.secure) blk }

/-- The eviction of a victim by BaseCache::handleEvictions. -/
def evict (params : FALRUParams) (cache : FALRU) (blk : Nat) : Except Fault FALRU := do
  let object ← cache.blks.read blk
  if object.valid then cache.invalidate params blk else return cache

/-- An access of a cache that allocates on every miss. -/
def access (params : FALRUParams) (cache : FALRU) (request : Addr × Bool) : Except Fault FALRU := do
  let (cache, blk) ← cache.accessBlock params request.1 request.2
  match blk with
  | some _ => return cache
  | none =>
    let victim := cache.findVictim
    let cache ← cache.evict params victim
    cache.insertBlock params request.1 request.2 victim

def accessAll (params : FALRUParams) (cache : FALRU) (requests : List (Addr × Bool)) : Except Fault FALRU :=
  requests.foldlM (access params) cache

/-- What a cache calls its tags for. -/
inductive Op (numBlocks : Nat) where
  | accessBlock (addr : Addr) (isSecure : Bool)
  | insertBlock (addr : Addr) (isSecure : Bool) (blk : Fin numBlocks)
  | invalidate (blk : Fin numBlocks)

def perform (params : FALRUParams) (cache : FALRU) : Op params.numBlocks → Except Fault FALRU
  | .accessBlock addr isSecure => do
    let (cache, _) ← cache.accessBlock params addr isSecure
    return cache
  | .insertBlock addr isSecure blk => cache.insertBlock params addr isSecure blk
  | .invalidate blk => cache.invalidate params blk

def performAll (params : FALRUParams) (cache : FALRU) (ops : List (Op params.numBlocks)) : Except Fault FALRU :=
  ops.foldlM (perform params) cache

end FALRU

end ImcGem5.Mem
