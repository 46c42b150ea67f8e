import ImcGem5.Lib.Heap
import ImcGem5.Mem.Packet
import Mathlib.Data.List.FinRange

/-! CompressedTags: a sector of the tags is a superblock, whose compressed blocks share the
data entry of one block. Data, latencies, coherence bits and statistics are left out. -/

namespace ImcGem5.Mem.Sectors
open Lib

def MaxAddr : Addr := BitVec.allOnes 64

def CHAR_BIT : Nat := 8

/-- The conversion to uint8_t. -/
def uint8 (value : Nat) : Nat := value % 2 ^ 8

/-- alignToPowerOfTwo of bitfield.hh. -/
def alignToPowerOfTwo (val : BitVec 64) : BitVec 64 :=
  let val := val - 1
  let val := val ||| val >>> 1
  let val := val ||| val >>> 2
  let val := val ||| val >>> 4
  let val := val ||| val >>> 8
  let val := val ||| val >>> 16
  let val := val ||| val >>> 32
  val + 1

structure TaggedEntry where
  valid : Bool := false
  secure : Bool := false
  tag : Addr := MaxAddr
  deriving DecidableEq, Repr

def TaggedEntry.insert (entry : TaggedEntry) (isValid : Bool) (tag : Addr) (isSecure : Bool) : Except Fault TaggedEntry := do
  Fault.ensure (!isValid) "!isValid()"
  return { valid := true, secure := entry.secure || isSecure, tag }

def TaggedEntry.invalidate (_ : TaggedEntry) : TaggedEntry := {}

structure CompressionBlk extends TaggedEntry where
  size : Nat := 0
  compressed : Bool := false
  deriving DecidableEq, Repr

structure SuperBlk (numBlocksPerSector : Nat) extends TaggedEntry where
  blks : Fin numBlocksPerSector → CompressionBlk := fun _ => {}
  validCounter : Nat := 0
  blkSize : Nat
  compressionFactor : Nat := 1

namespace SuperBlk

variable {numBlocksPerSector : Nat}

def isValid (superblock : SuperBlk numBlocksPerSector) : Bool := 0 < superblock.validCounter

def matchTag (superblock : SuperBlk numBlocksPerSector) (tag : Addr) (isSecure : Bool) : Bool :=
  superblock.isValid && superblock.tag == tag && superblock.secure == isSecure

def isCompressed (superblock : SuperBlk numBlocksPerSector) (ignored : Option (Fin numBlocksPerSector)) : Bool :=
  match (List.finRange numBlocksPerSector).find? fun i => (superblock.blks i).valid && some i != ignored with
  | some i => (superblock.blks i).compressed
  | none => true

def canCoAllocate (superblock : SuperBlk numBlocksPerSector) (compressedSize : Nat) : Bool :=
  superblock.validCounter < superblock.compressionFactor &&
    compressedSize ≤ superblock.blkSize * CHAR_BIT / superblock.compressionFactor

/-- The quotient is computed with doubles, whose 53 bits are enough for the sizes of blocks. -/
def calculateCompressionFactor (superblock : SuperBlk numBlocksPerSector) (size : Nat) : Nat :=
  let blkSizeBits := CHAR_BIT * superblock.blkSize
  let compressionFactor :=
    if blkSizeBits < size then 1
    else if size = 0 then blkSizeBits
    else (alignToPowerOfTwo (BitVec.ofNat 64 (blkSizeBits / size))).toNat
  uint8 (min compressionFactor numBlocksPerSector)

def setCompressionFactor (superblock : SuperBlk numBlocksPerSector) (compressionFactor : Nat) : SuperBlk numBlocksPerSector :=
  if superblock.validCounter ≤ 1 then { superblock with compressionFactor } else superblock

def writeBlk (superblock : SuperBlk numBlocksPerSector) (i : Fin numBlocksPerSector) (blk : CompressionBlk) :
    SuperBlk numBlocksPerSector :=
  { superblock with blks := Function.update superblock.blks i blk }

def invalidate (superblock : SuperBlk numBlocksPerSector) : SuperBlk numBlocksPerSector :=
  { superblock with toTaggedEntry := superblock.toTaggedEntry.invalidate, compressionFactor := 1 }

def validateSubBlk (superblock : SuperBlk numBlocksPerSector) : SuperBlk numBlocksPerSector :=
  { superblock with validCounter := uint8 (superblock.validCounter + 1) }

def invalidateSubBlk (superblock : SuperBlk numBlocksPerSector) : SuperBlk numBlocksPerSector :=
  let superblock := { superblock with validCounter := uint8 (superblock.validCounter + 2 ^ 8 - 1) }
  if superblock.validCounter = 0 then superblock.invalidate else superblock

/-- What SectorSubBlk::insert does to its sector. -/
def insertTag (superblock : SuperBlk numBlocksPerSector) (tag : Addr) (isSecure : Bool) :
    Except Fault (SuperBlk numBlocksPerSector) :=
  if superblock.isValid then
    if superblock.matchTag tag isSecure then .ok superblock else .error (.panic "Overwriting valid sector!")
  else if tag = MaxAddr then .ok superblock
  else do
    let entry ← superblock.toTaggedEntry.insert superblock.isValid tag isSecure
    return { superblock with toTaggedEntry := entry }

/-- SectorSubBlk::insert of the ith block. -/
def insertBlk (superblock : SuperBlk numBlocksPerSector) (i : Fin numBlocksPerSector) (tag : Addr) (isSecure : Bool) :
    Except Fault (SuperBlk numBlocksPerSector) := do
  let superblock ← superblock.insertTag tag isSecure
  let blk := superblock.blks i
  let entry ← blk.toTaggedEntry.insert blk.valid tag isSecure
  return (superblock.writeBlk i { blk with toTaggedEntry := entry }).validateSubBlk

def invalidateBlk (superblock : SuperBlk numBlocksPerSector) (i : Fin numBlocksPerSector) : SuperBlk numBlocksPerSector :=
  let blk := superblock.blks i
  (superblock.writeBlk i { blk with toTaggedEntry := blk.toTaggedEntry.invalidate, compressed := false }).invalidateSubBlk

def setSizeBits (superblock : SuperBlk numBlocksPerSector) (i : Fin numBlocksPerSector) (size : Nat) :
    Except Fault (SuperBlk numBlocksPerSector) := do
  let superblock := superblock.writeBlk i { superblock.blks i with size }
  let compressionFactor := superblock.calculateCompressionFactor size
  let superblock := superblock.setCompressionFactor compressionFactor
  let numValid := superblock.validCounter
  Fault.ensure (1 ≤ numValid) "num_valid >= 1"
  let compressed := if numValid = 1 then compressionFactor != 1 else superblock.isCompressed (some i)
  return superblock.writeBlk i { superblock.blks i with compressed }

end SuperBlk

/-- The parameters pass the checks of the constructor, and the block size is an unsigned int. -/
structure SectorTagsParams where
  blkSize : Nat
  numBlocksPerSector : Nat
  numSectors : Nat
  blkSize_isPowerOf2 : ∃ exponent, 2 ≤ exponent ∧ exponent < 32 ∧ blkSize = 2 ^ exponent
  numBlocksPerSector_isPowerOf2 : ∃ exponent, numBlocksPerSector = 2 ^ exponent

/-- The indexing policy, whose entries are superblocks. -/
structure IndexingPolicy (numSectors : Nat) where
  getPossibleEntries : Addr → List (Fin numSectors)
  extractTag : Addr → Addr

structure CompressedTags extends SectorTagsParams where
  indexingPolicy : IndexingPolicy numSectors

namespace CompressedTags

variable (tags : CompressedTags)

abbrev SuperBlks : Type := Fin tags.numSectors → SuperBlk tags.numBlocksPerSector

abbrev Location : Type := Fin tags.numSectors × Fin tags.numBlocksPerSector

/-- tagsInit -/
def init : tags.SuperBlks := fun _ => { blkSize := tags.blkSize }

theorem numBlocksPerSector_pos : 0 < tags.numBlocksPerSector := by
  obtain ⟨exponent, power⟩ := tags.numBlocksPerSector_isPowerOf2
  rw [power]
  exact Nat.two_pow_pos exponent

def sectorShift : Nat := Nat.log2 tags.blkSize

def sectorMask : Addr := BitVec.ofNat 64 (tags.numBlocksPerSector - 1)

theorem offset_lt (addr : Addr) : (addr >>> tags.sectorShift &&& tags.sectorMask).toNat < tags.numBlocksPerSector := by
  rw [BitVec.toNat_and, sectorMask, BitVec.toNat_ofNat]
  have masked : (addr >>> tags.sectorShift).toNat &&& (tags.numBlocksPerSector - 1) % 2 ^ 64 ≤ (tags.numBlocksPerSector - 1) % 2 ^ 64 :=
    Nat.and_le_right
  have positive := tags.numBlocksPerSector_pos
  omega

def extractSectorOffset (addr : Addr) : Fin tags.numBlocksPerSector :=
  ⟨(addr >>> tags.sectorShift &&& tags.sectorMask).toNat, tags.offset_lt addr⟩

def coAllocates (superBlks : tags.SuperBlks) (addr : Addr) (isSecure : Bool) (compressedSize : Nat) (entry : Fin tags.numSectors) :
    Bool :=
  let superblock := superBlks entry
  superblock.matchTag (tags.indexingPolicy.extractTag addr) isSecure &&
    !(superblock.blks (tags.extractSectorOffset addr)).valid && superblock.isCompressed none &&
    superblock.canCoAllocate compressedSize

def isValid (superBlks : tags.SuperBlks) (blk : tags.Location) : Bool := ((superBlks blk.1).blks blk.2).valid

/-- `getVictim` is the replacement policy. Also returns evict_blks. -/
def findVictim (superBlks : tags.SuperBlks) (addr : Addr) (isSecure : Bool) (compressedSize : Nat)
    (getVictim : List (Fin tags.numSectors) → Fin tags.numSectors) : tags.Location × List tags.Location :=
  let superblockEntries := tags.indexingPolicy.getPossibleEntries addr
  let offset := tags.extractSectorOffset addr
  match superblockEntries.find? (tags.coAllocates superBlks addr isSecure compressedSize) with
  | some victim => ((victim, offset), [])
  | none =>
    let victim := getVictim superblockEntries
    ((victim, offset), ((List.finRange tags.numBlocksPerSector).map fun i => (victim, i)).filter (tags.isValid superBlks))

/-- The invalidation of a block, by whoever evicts it. -/
def invalidate (superBlks : tags.SuperBlks) (blk : tags.Location) : Except Fault tags.SuperBlks := do
  Fault.ensure (tags.isValid superBlks blk) "blk->isValid()"
  return Function.update superBlks blk.1 ((superBlks blk.1).invalidateBlk blk.2)

/-- BaseCache::handleEvictions evicts all the blocks, or none when one of them has an mshr. -/
def handleEvictions (superBlks : tags.SuperBlks) (evictBlks : List tags.Location) (mshr : tags.Location → Bool) :
    Except Fault (Option tags.SuperBlks) :=
  if evictBlks.any fun blk => tags.isValid superBlks blk && mshr blk then return none
  else do
    let superBlks ← evictBlks.foldlM (fun superBlks blk =>
      if tags.isValid superBlks blk then tags.invalidate superBlks blk else return superBlks) superBlks
    return some superBlks

def insert (superBlks : tags.SuperBlks) (blk : tags.Location) (addr : Addr) (isSecure : Bool) (size : Nat) :
    Except Fault tags.SuperBlks := do
  Fault.ensure (!tags.isValid superBlks blk) "!blk->isValid()"
  let superblock ← (superBlks blk.1).insertBlk blk.2 (tags.indexingPolicy.extractTag addr) isSecure
  let superblock ← superblock.setSizeBits blk.2 size
  return Function.update superBlks blk.1 superblock

/-- BaseCache::allocateBlock of data of a size that the compressor reports, and the
invalidation of a block for any other reason. -/
inductive Op where
  | allocateBlock (addr : Addr) (isSecure : Bool) (size : Nat) (getVictim : List (Fin tags.numSectors) → Fin tags.numSectors)
    (mshr : tags.Location → Bool)
  | invalidate (blk : tags.Location)

/-- Reports the blocks that were evicted. -/
def perform (superBlks : tags.SuperBlks) : tags.Op → Except Fault (tags.SuperBlks × List tags.Location)
  | .allocateBlock addr isSecure size getVictim mshr => do
    let (victim, evictBlks) := tags.findVictim superBlks addr isSecure size getVictim
    match ← tags.handleEvictions superBlks evictBlks mshr with
    | none => return (superBlks, [])
    | some superBlks =>
      let superBlks ← tags.insert superBlks victim addr isSecure size
      return (superBlks, evictBlks)
  | .invalidate blk => do
    let superBlks ← tags.invalidate superBlks blk
    return (superBlks, [blk])

end CompressedTags

end ImcGem5.Mem.Sectors
