import ImcGem5.Lib.Heap
import ImcGem5.Mem.Packet
import Mathlib.Logic.Function.Iterate

/-! SkewedAssociative: the indexing policy that looks for a block in another set in each
way. -/

namespace ImcGem5.Mem.Skewed
open Lib

/-! The parts of bitfield.hh that hashing needs. -/

def mask (nbits : Nat) : Addr := if 64 ≤ nbits then BitVec.allOnes 64 else (1#64 <<< nbits) - 1

def bits (val : Addr) (first last : Nat) : Addr := (val >>> last) &&& mask (first - last + 1)

def mbits (val : Addr) (first last : Nat) : Addr := val &&& (mask (first + 1) &&& ~~~mask last)

def insertBit (val : Addr) (bit : Nat) (bitVal : BitVec 8) : Addr :=
  let bmask := mbits (BitVec.allOnes 64) bit bit
  (val &&& ~~~bmask) ||| ((bitVal.setWidth 64 <<< bit) &&& bmask)

/-- entry_size and assoc are ints. -/
structure BaseIndexingPolicyParams where
  size : BitVec 64
  entrySize : BitVec 32
  assoc : BitVec 32

structure SkewedAssociative where
  assoc : BitVec 32
  numSets : BitVec 32
  setShift : Nat
  setMask : BitVec 32
  tagShift : Nat
  msbShift : Nat
  deriving DecidableEq, Repr

structure ReplaceableEntry where
  set : BitVec 32
  way : BitVec 32
  deriving DecidableEq, Repr

def NUM_SKEWING_FUNCTIONS : Nat := 8

def isPowerOf2 (n : BitVec 32) : Bool := n != 0 && n &&& (n - 1) == 0

namespace SkewedAssociative

/-- The constructors of both classes. floorLog2 asserts that its argument is positive. -/
def new (params : BaseIndexingPolicyParams) : Except Fault SkewedAssociative := do
  let way := params.entrySize * params.assoc
  Fault.ensure (way != 0) "division by zero"
  let numSets := (params.size / way.setWidth 64).setWidth 32
  Fault.ensure (0 < params.entrySize.toInt) "x > 0"
  let setShift := Nat.log2 params.entrySize.toNat
  Fault.ensure (numSets != 0) "x > 0"
  let tagShift := setShift + Nat.log2 numSets.toNat
  if !isPowerOf2 numSets then throw (.panic "# of sets must be non-zero and a power of 2")
  if params.assoc ≤ 0 then throw (.panic "associativity must be greater than zero")
  let msbShift := (Nat.log2 numSets.toNat : Int) - 1
  if (setShift : Int) + 2 * (msbShift + 1) > 64 then throw (.panic "Unsuported number of bits for the skewing functions.")
  if numSets ≤ 2 then throw (.panic "The number of sets must be greater than 2")
  return {
    assoc := params.assoc
    numSets
    setShift
    setMask := numSets - 1
    tagShift
    msbShift := msbShift.toNat }

def hash (policy : SkewedAssociative) (addr : Addr) : Addr :=
  let lsb := (bits addr 0 0).setWidth 8
  let msb := (bits addr policy.msbShift policy.msbShift).setWidth 8
  let xorBit := msb ^^^ lsb
  insertBit (addr >>> 1) policy.msbShift xorBit

def dehash (policy : SkewedAssociative) (addr : Addr) : Addr :=
  let msb := (bits addr (policy.msbShift - 1) (policy.msbShift - 1)).setWidth 8
  let xorBit := (bits addr policy.msbShift policy.msbShift).setWidth 8
  let lsb := msb ^^^ xorBit
  let addrNoMsb := mbits addr (policy.msbShift - 1) 0
  insertBit (addrNoMsb <<< 1) 0 lsb

def skew (policy : SkewedAssociative) (addr : Addr) (way : BitVec 32) : Addr :=
  let hash := policy.hash
  let dehash := policy.dehash
  let addr1 := bits addr policy.msbShift 0
  let addr2 := bits addr (2 * (policy.msbShift + 1) - 1) (policy.msbShift + 1)
  let addr1 := match way.toNat % NUM_SKEWING_FUNCTIONS with
    | 0 => hash addr1 ^^^ hash addr2 ^^^ addr2
    | 1 => hash addr1 ^^^ hash addr2 ^^^ addr1
    | 2 => hash addr1 ^^^ dehash addr2 ^^^ addr2
    | 3 => hash addr1 ^^^ dehash addr2 ^^^ addr1
    | 4 => dehash addr1 ^^^ hash addr2 ^^^ addr2
    | 5 => dehash addr1 ^^^ hash addr2 ^^^ addr1
    | 6 => dehash addr1 ^^^ dehash addr2 ^^^ addr2
    | _ => dehash addr1 ^^^ dehash addr2 ^^^ addr1
  hash^[way.toNat / NUM_SKEWING_FUNCTIONS] addr1

def deskew (policy : SkewedAssociative) (addr : Addr) (way : BitVec 32) : Addr :=
  let hash := policy.hash
  let dehash := policy.dehash
  let addr1 := bits addr policy.msbShift 0
  let addr2 := bits addr (2 * (policy.msbShift + 1) - 1) (policy.msbShift + 1)
  let addr1 := if NUM_SKEWING_FUNCTIONS ≤ way.toNat then dehash^[way.toNat / NUM_SKEWING_FUNCTIONS] addr1 else addr1
  match way.toNat % 8 with
  | 0 => dehash (addr1 ^^^ hash addr2 ^^^ addr2)
  | 1 => hash^[policy.msbShift] (addr1 ^^^ hash addr2)
  | 2 => dehash (addr1 ^^^ dehash addr2 ^^^ addr2)
  | 3 => hash^[policy.msbShift] (addr1 ^^^ dehash addr2)
  | 4 => hash (addr1 ^^^ hash addr2 ^^^ addr2)
  | 5 => hash^[policy.msbShift + 1] (addr1 ^^^ hash addr2)
  | 6 => hash (addr1 ^^^ dehash addr2 ^^^ addr2)
  | _ => hash^[policy.msbShift + 1] (addr1 ^^^ dehash addr2)

def extractTag (policy : SkewedAssociative) (addr : Addr) : Addr := addr >>> policy.tagShift

def extractSet (policy : SkewedAssociative) (addr : Addr) (way : BitVec 32) : BitVec 32 :=
  (policy.skew (addr >>> policy.setShift) way &&& policy.setMask.setWidth 64).setWidth 32

def regenerateAddr (policy : SkewedAssociative) (tag : Addr) (entry : ReplaceableEntry) : Addr :=
  let addrSet := (tag <<< (policy.msbShift + 1)) ||| entry.set.setWidth 64
  (tag <<< policy.tagShift) ||| ((policy.deskew addrSet entry.way &&& policy.setMask.setWidth 64) <<< policy.setShift)

/-- The entry of each way, which is where setEntry put it. -/
def getPossibleEntries (policy : SkewedAssociative) (addr : Addr) : List ReplaceableEntry :=
  (List.range policy.assoc.toNat).map fun way => ⟨policy.extractSet addr (BitVec.ofNat 32 way), BitVec.ofNat 32 way⟩

end SkewedAssociative

end ImcGem5.Mem.Skewed
