import ImcGem5.Lib.Bits
import ImcGem5.Lib.Bytes
import ImcGem5.Lib.Heap

/-! The cache compressors. A dictionary compressor of values of so many bits is made of a list
of pattern classes and of what it does with its dictionary; a pattern is known by its fields
and its decompress function. Statistics are left out. -/

namespace ImcGem5.Mem.Compression
open Lib List
open BitVec (ofNat allOnes)

def mask (n : Nat) : BitVec 64 := ofNat 64 (2 ^ n - 1)

theorem getLsbD_mask (n index : Nat) : (mask n).getLsbD index = (decide (index < 64) && decide (index < n)) := by
  rw [mask, BitVec.getLsbD_ofNat, Nat.testBit_two_pow_sub_one]

def sext (n : Nat) (val : BitVec 64) : BitVec 64 := if val.getLsbD (n - 1) then val ||| ~~~mask n else val

def szext (n : Nat) (val : BitVec 64) : BitVec 64 := if val.getLsbD (n - 1) then val ||| ~~~mask n else val &&& mask n

def alignToPowerOfTwo (val : BitVec 64) : BitVec 64 :=
  let val := val - 1
  let val := val ||| val >>> 1
  let val := val ||| val >>> 2
  let val := val ||| val >>> 4
  let val := val ||| val >>> 8
  let val := val ||| val >>> 16
  let val := val ||| val >>> 32
  val + 1

abbrev DictionaryEntry := List Byte

variable {w : Nat}

def toDictionaryEntry (value : BitVec w) : DictionaryEntry := leBytes (w / 8) value.toNat

def fromDictionaryEntry (w : Nat) (entry : DictionaryEntry) : BitVec w := ofNat w (leNat entry)

structure Pattern where
  patternNumber : Nat
  sizeBits : Nat
  matchLocation : Int
  allocate : Bool
  runLength : Nat := 0
  decompress : DictionaryEntry → DictionaryEntry

structure PatternClass where
  isPattern : DictionaryEntry → DictionaryEntry → Int → Bool
  new : DictionaryEntry → Int → Pattern

namespace UncompressedPattern

def isPattern (_ _ : DictionaryEntry) (_ : Int) : Bool := true

def new (w number metadataLength : Nat) (matchLocation : Int) (bytes : DictionaryEntry) : Pattern :=
  { patternNumber := number, sizeBits := w + metadataLength, matchLocation, allocate := true, decompress := fun _ => bytes }

end UncompressedPattern

namespace MaskedPattern

def isPattern (mask : BitVec w) (bytes dictBytes : DictionaryEntry) (matchLocation : Int) : Bool :=
  decide (0 ≤ matchLocation) && fromDictionaryEntry w bytes &&& mask == fromDictionaryEntry w dictBytes &&& mask

def decompress (mask : BitVec w) (bytes dictBytes : DictionaryEntry) : DictionaryEntry :=
  let bits := fromDictionaryEntry w bytes &&& ~~~mask
  toDictionaryEntry (bits ||| fromDictionaryEntry w dictBytes &&& mask)

def new (mask : BitVec w) (number metadataLength : Nat) (matchLocation : Int) (bytes : DictionaryEntry) (allocate : Bool) : Pattern :=
  { patternNumber := number, sizeBits := (range w).countP (~~~mask).getLsbD + metadataLength, matchLocation, allocate
    decompress := decompress mask bytes }

end MaskedPattern

namespace MaskedValuePattern

def isPattern (value mask : BitVec w) (bytes _ : DictionaryEntry) (_ : Int) : Bool :=
  value &&& mask == fromDictionaryEntry w bytes &&& mask

def new (value mask : BitVec w) (number metadataLength : Nat) (matchLocation : Int) (bytes : DictionaryEntry) (allocate : Bool) :
    Pattern :=
  { MaskedPattern.new mask number metadataLength matchLocation bytes allocate with
    decompress := fun _ => MaskedPattern.decompress mask bytes (toDictionaryEntry value) }

end MaskedValuePattern

/-- Its constructor is that of the masked pattern. -/
def LocatedMaskedPattern.isPattern (mask : BitVec w) (location : Int) (bytes dictBytes : DictionaryEntry) (matchLocation : Int) : Bool :=
  matchLocation == location && MaskedPattern.isPattern mask bytes dictBytes matchLocation

namespace RepeatedValuePattern

def isRepeated {r : Nat} (repValue : BitVec r) : Nat → BitVec w → Bool
  | 0, _ => true
  | times + 1, bytesValue => bytesValue.setWidth r == repValue && isRepeated repValue times (bytesValue >>> r)

def isPattern (w r : Nat) (bytes _ : DictionaryEntry) (_ : Int) : Bool :=
  let bytesValue := fromDictionaryEntry w bytes
  isRepeated (bytesValue.setWidth r) (w / r) bytesValue

def repeated (w : Nat) {r : Nat} (value : BitVec r) : Nat → BitVec w
  | 0 => 0
  | times + 1 => repeated w value times <<< r ||| value.setWidth w

def new (w r number metadataLength : Nat) (matchLocation : Int) (bytes : DictionaryEntry) (allocate : Bool) : Pattern :=
  { patternNumber := number, sizeBits := r + metadataLength, matchLocation, allocate
    decompress := fun _ => toDictionaryEntry (repeated w ((fromDictionaryEntry w bytes).setWidth r) (w / r)) }

end RepeatedValuePattern

namespace DeltaPattern

def isValidDelta (w deltaSizeBits : Nat) (bytes baseBytes : DictionaryEntry) : Bool :=
  let limit : BitVec w := if deltaSizeBits ≠ 0 then (mask (deltaSizeBits - 1)).setWidth w else 0
  let delta := fromDictionaryEntry w bytes - fromDictionaryEntry w baseBytes
  (-limit).sle delta && delta.sle limit

def isPattern (w deltaSizeBits : Nat) (bytes dictBytes : DictionaryEntry) (matchLocation : Int) : Bool :=
  decide (0 ≤ matchLocation) && isValidDelta w deltaSizeBits bytes dictBytes

def new (deltaSizeBits number metadataLength : Nat) (matchLocation : Int) (bytes : DictionaryEntry) : Pattern :=
  { patternNumber := number, sizeBits := deltaSizeBits + metadataLength, matchLocation, allocate := false
    decompress := fun _ => bytes }

end DeltaPattern

namespace SignExtendedPattern

def isPattern (w n : Nat) (bytes _ : DictionaryEntry) (_ : Int) : Bool :=
  let data := fromDictionaryEntry w bytes
  data == (szext n (data.setWidth 64)).setWidth w

def new (w n number metadataLength : Nat) (bytes : DictionaryEntry) : Pattern :=
  let bits := (fromDictionaryEntry w bytes).setWidth 64 &&& mask n
  { patternNumber := number, sizeBits := n + metadataLength, matchLocation := -1, allocate := false
    decompress := fun _ => toDictionaryEntry ((sext n bits).setWidth w) }

end SignExtendedPattern

/-- The chain of factories: the first class that matches, and the last one if none does. -/
def getPattern : List PatternClass → PatternClass → DictionaryEntry → DictionaryEntry → Int → Pattern
  | [], last, bytes, _, matchLocation => last.new bytes matchLocation
  | head :: tail, last, bytes, dictBytes, matchLocation =>
    if head.isPattern bytes dictBytes matchLocation then head.new bytes matchLocation
    else getPattern tail last bytes dictBytes matchLocation

structure CompData where
  entries : List Pattern := []
  sizeBits : Nat := 0

def CompData.addEntry (data : CompData) (pattern : Pattern) : CompData :=
  { entries := data.entries ++ [pattern], sizeBits := data.sizeBits + pattern.sizeBits }

structure Dictionary where
  dictionary : List DictionaryEntry
  numEntries : Nat
  deriving DecidableEq, Repr

namespace Dictionary

def write (dict : Dictionary) (index : Nat) (data : DictionaryEntry) : Except Fault Dictionary :=
  if index < dict.dictionary.length then .ok { dict with dictionary := dict.dictionary.set index data } else .error .wild

/-- dictionary[numEntries++] = data -/
def push (dict : Dictionary) (data : DictionaryEntry) : Except Fault Dictionary := do
  let dict ← dict.write dict.numEntries data
  return { dict with numEntries := dict.numEntries + 1 }

end Dictionary

structure Params where
  blkSize : Nat
  chunkSizeBits : Nat
  dictionarySize : Nat
  sizeThreshold : Nat
  compChunksPerCycle : Nat
  compExtraLatency : Nat
  decompChunksPerCycle : Nat
  decompExtraLatency : Nat
  zeroRunBits : Nat := 3
  deriving DecidableEq, Repr

structure Outcome where
  data : CompData
  compLat : Nat
  decompLat : Nat

/-- The virtual functions of a dictionary compressor. `resetDictionary` is what is done once
the dictionary is cleared, and `finish` what the last compress of the hierarchy does. -/
structure DictionaryCompressor where
  width : Nat
  factory : List PatternClass
  last : PatternClass
  resetDictionary : Params → Dictionary → Except Fault Dictionary := fun _ dict => .ok dict
  addToDictionary : Params → Dictionary → DictionaryEntry → Except Fault Dictionary
  addEntry : Params → CompData → Pattern → CompData := fun _ => CompData.addEntry
  finish : Params → Dictionary → List (BitVec 64) → CompData → Except Fault Outcome

namespace DictionaryCompressor

variable (compressor : DictionaryCompressor) (params : Params)

def reset (dict : Dictionary) : Except Fault Dictionary :=
  compressor.resetDictionary params
    { dictionary := replicate dict.dictionary.length (toDictionaryEntry (0 : BitVec compressor.width)), numEntries := 0 }

/-- The loop of compressValue over the entries from `i` on. -/
def search (bytes : DictionaryEntry) : List DictionaryEntry → Nat → Pattern → Pattern
  | [], _, pattern => pattern
  | entry :: rest, i, pattern =>
    let tempPattern := getPattern compressor.factory compressor.last bytes entry i
    search bytes rest (i + 1) (if tempPattern.sizeBits < pattern.sizeBits then tempPattern else pattern)

def compressValue (dict : Dictionary) (data : BitVec compressor.width) : Except Fault (Dictionary × Pattern) := do
  let bytes := toDictionaryEntry data
  let pattern := getPattern compressor.factory compressor.last bytes (toDictionaryEntry (0 : BitVec compressor.width)) (-1)
  let pattern := compressor.search bytes (dict.dictionary.take dict.numEntries) 0 pattern
  let dict ← (if pattern.allocate then compressor.addToDictionary params dict bytes else .ok dict)
  return (dict, pattern)

def compressEach : List (BitVec 64) → Dictionary → CompData → Except Fault (Dictionary × CompData)
  | [], dict, data => .ok (dict, data)
  | value :: rest, dict, data => do
    let (dict, pattern) ← compressor.compressValue params dict (value.setWidth compressor.width)
    compressEach rest dict (compressor.addEntry params data pattern)

def compressChunks (dict : Dictionary) (chunks : List (BitVec 64)) : Except Fault (Dictionary × Outcome) := do
  let dict ← compressor.reset params dict
  let (dict, data) ← compressor.compressEach params chunks dict {}
  let outcome ← compressor.finish params dict chunks data
  return (dict, outcome)

/-- getMatchLocation returns a byte. Past the dictionary, `outside` is read. -/
def decompressValue (outside : DictionaryEntry) (dict : Dictionary) (pattern : Pattern) :
    Except Fault (Dictionary × BitVec compressor.width) := do
  let entry := (dict.dictionary[(pattern.matchLocation % 256).toNat]?).getD outside
  let data := pattern.decompress entry
  let dict ← (if pattern.allocate then compressor.addToDictionary params dict data else .ok dict)
  return (dict, fromDictionaryEntry compressor.width data)

def decompressEach (outside : DictionaryEntry) : List Pattern → Dictionary →
    Except Fault (Dictionary × List (BitVec compressor.width))
  | [], dict => .ok (dict, [])
  | pattern :: rest, dict => do
    let (dict, value) ← compressor.decompressValue params outside dict pattern
    let (dict, values) ← decompressEach outside rest dict
    return (dict, value :: values)

end DictionaryCompressor

/-- The values of one word of the line, the last one first. -/
def joinValues (values : List (BitVec w)) (first : Nat) : Nat → BitVec 64
  | 0 => 0
  | j + 1 => joinValues values first j ||| ((values[first + j]?).getD 0).setWidth 64 <<< (j * w)

def DictionaryCompressor.decompress (compressor : DictionaryCompressor) (params : Params) (outside : DictionaryEntry)
    (dict : Dictionary) (data : CompData) : Except Fault (Dictionary × List (BitVec 64)) := do
  let dict ← compressor.reset params dict
  let (dict, values) ← compressor.decompressEach params outside data.entries dict
  let valuesPerEntry := 64 / compressor.width
  if values.length < valuesPerEntry * (params.blkSize / 8) then .error .wild
  else return (dict, (range (params.blkSize / 8)).map fun i => joinValues values (valuesPerEntry * i) valuesPerEntry)

def toChunks (params : Params) (data : List (BitVec 64)) : List (BitVec 64) :=
  let numChunksPer64 := 64 / params.chunkSizeBits
  (range (params.blkSize * 8 / params.chunkSizeBits)).map fun i =>
    (data.getD (i / numChunksPer64) 0 >>> (i % numChunksPer64 * params.chunkSizeBits)) &&& mask params.chunkSizeBits

def fromChunks (params : Params) (chunks : List (BitVec 64)) : List (BitVec 64) :=
  let numChunksPer64 := 64 / params.chunkSizeBits
  (range chunks.length).foldl
    (fun data i => data.modify (i / numChunksPer64) fun word =>
      insertField word (i % numChunksPer64 * params.chunkSizeBits) ((chunks.getD i 0).setWidth params.chunkSizeBits))
    (replicate (params.blkSize / 8) 0)

/-- What Base::compress does with a size over the threshold. -/
def thresholded (params : Params) (sizeBits : Nat) : Nat :=
  if params.sizeThreshold * 8 < sizeBits then params.blkSize * 8 else sizeBits

/-- Base::compress of raw data. -/
def DictionaryCompressor.compress (compressor : DictionaryCompressor) (params : Params) (dict : Dictionary)
    (data : List (BitVec 64)) : Except Fault (Dictionary × Outcome) := do
  let (dict, outcome) ← compressor.compressChunks params dict (toChunks params data)
  return (dict, { outcome with data := { outcome.data with sizeBits := thresholded params outcome.data.sizeBits } })

/-- The latencies of DictionaryCompressor::compress. No chunks in a cycle divide by zero. -/
def withLatencies (params : Params) (_ : Dictionary) (chunks : List (BitVec 64)) (data : CompData) : Except Fault Outcome :=
  if params.compChunksPerCycle = 0 ∨ params.decompChunksPerCycle = 0 then .error .wild
  else .ok {
    data
    compLat := params.compExtraLatency + chunks.length / params.compChunksPerCycle
    decompLat := params.decompExtraLatency + chunks.length / params.decompChunksPerCycle }

def DictionaryCompressor.constructed (compressor : DictionaryCompressor) (params : Params) : Dictionary :=
  { dictionary := replicate params.dictionarySize (toDictionaryEntry (0 : BitVec compressor.width)), numEntries := 0 }

/-- The addToDictionary of most compressors, which assert that there is room. -/
def addBounded (text : String) (params : Params) (dict : Dictionary) (data : DictionaryEntry) : Except Fault Dictionary := do
  Fault.ensure (decide (dict.numEntries < params.dictionarySize)) text
  dict.push data

namespace CPack

def patternZZZZ : PatternClass :=
  ⟨MaskedValuePattern.isPattern (w := 32) 0 0xFFFFFFFF,
    fun bytes location => MaskedValuePattern.new (w := 32) 0 0xFFFFFFFF 0 2 location bytes false⟩

def patternXXXX : PatternClass := ⟨UncompressedPattern.isPattern, fun bytes location => UncompressedPattern.new 32 1 2 location bytes⟩

def patternMMMM : PatternClass :=
  ⟨MaskedPattern.isPattern (w := 32) 0xFFFFFFFF, fun bytes location => MaskedPattern.new (w := 32) 0xFFFFFFFF 2 6 location bytes true⟩

def patternMMXX : PatternClass :=
  ⟨MaskedPattern.isPattern (w := 32) 0xFFFF0000, fun bytes location => MaskedPattern.new (w := 32) 0xFFFF0000 3 8 location bytes true⟩

def patternZZZX : PatternClass :=
  ⟨MaskedValuePattern.isPattern (w := 32) 0 0xFFFFFF00,
    fun bytes location => MaskedValuePattern.new (w := 32) 0 0xFFFFFF00 4 4 location bytes false⟩

def patternMMMX : PatternClass :=
  ⟨MaskedPattern.isPattern (w := 32) 0xFFFFFF00, fun bytes location => MaskedPattern.new (w := 32) 0xFFFFFF00 5 8 location bytes true⟩

end CPack

def CPack : DictionaryCompressor where
  width := 32
  factory := [CPack.patternZZZZ, CPack.patternMMMM, CPack.patternZZZX, CPack.patternMMMX, CPack.patternMMXX]
  last := CPack.patternXXXX
  addToDictionary := addBounded "numEntries < dictionarySize"
  finish := withLatencies

namespace FPC

def ZERO_RUN : Nat := 0

def zeroRun : PatternClass :=
  ⟨MaskedValuePattern.isPattern (w := 32) 0 0xFFFFFFFF,
    fun bytes _ => { MaskedValuePattern.new (w := 32) 0 0xFFFFFFFF ZERO_RUN 3 (-1) bytes false with sizeBits := 0 }⟩

def signExtended4Bits : PatternClass := ⟨SignExtendedPattern.isPattern 32 4, fun bytes _ => SignExtendedPattern.new 32 4 1 3 bytes⟩

def signExtended1Byte : PatternClass := ⟨SignExtendedPattern.isPattern 32 8, fun bytes _ => SignExtendedPattern.new 32 8 2 3 bytes⟩

def signExtendedHalfword : PatternClass :=
  ⟨SignExtendedPattern.isPattern 32 16, fun bytes _ => SignExtendedPattern.new 32 16 3 3 bytes⟩

def zeroPaddedHalfword : PatternClass :=
  ⟨MaskedValuePattern.isPattern (w := 32) 0 0x0000FFFF, fun bytes _ => MaskedValuePattern.new (w := 32) 0 0x0000FFFF 4 3 (-1) bytes false⟩

/-- The halfwords are compared as ints, so that a negative one never matches. -/
def signExtendedTwoHalfwords : PatternClass where
  isPattern bytes _ _ :=
    let data := fromDictionaryEntry 32 bytes
    let matching (halfword : BitVec 16) : Bool := halfword.toInt == ((szext 8 (halfword.signExtend 64)).setWidth 16).toNat
    matching (data.setWidth 16) && matching ((data >>> 16).setWidth 16)
  new bytes _ :=
    let data := fromDictionaryEntry 32 bytes
    let halfword (extendedByte : Byte) : BitVec 16 := (szext 8 (extendedByte.signExtend 64)).setWidth 16
    { patternNumber := 5, sizeBits := 16 + 3, matchLocation := -1, allocate := false
      decompress := fun _ => toDictionaryEntry
        ((halfword ((data >>> 16).setWidth 8)).setWidth 32 <<< 16 ||| (halfword (data.setWidth 8)).setWidth 32) }

def repBytes : PatternClass :=
  ⟨RepeatedValuePattern.isPattern 32 8, fun bytes _ => RepeatedValuePattern.new 32 8 6 3 (-1) bytes false⟩

def uncompressed : PatternClass := ⟨UncompressedPattern.isPattern, fun bytes _ => UncompressedPattern.new 32 7 3 (-1) bytes⟩

/-- FPCCompData::addEntry: a zero pattern starts a run, or makes the last one longer. -/
def addEntry (params : Params) (data : CompData) (pattern : Pattern) : CompData :=
  let started := { pattern with sizeBits := 3 + params.zeroRunBits }
  data.addEntry
    (if pattern.patternNumber ≠ ZERO_RUN then pattern
    else
      match data.entries.getLast? with
      | none => started
      | some back =>
        if back.patternNumber ≠ ZERO_RUN then started
        else if ofNat 64 back.runLength = mask params.zeroRunBits then started
        else { pattern with runLength := back.runLength + 1 })

end FPC

def FPC : DictionaryCompressor where
  width := 32
  factory := [FPC.zeroRun, FPC.signExtended4Bits, FPC.signExtended1Byte, FPC.signExtendedHalfword, FPC.zeroPaddedHalfword,
    FPC.signExtendedTwoHalfwords, FPC.repBytes]
  last := FPC.uncompressed
  addToDictionary := fun _ dict _ => .ok dict
  addEntry := FPC.addEntry
  finish := withLatencies

namespace FPCD

def prefixSize : Nat := 4

def previousIndex : Nat := 1

def penultimateIndex : Nat := 0

/-- The patterns of a masked value, and those of the previous or the penultimate entry. -/
def valuePattern (value mask : BitVec 32) (number : Nat) : PatternClass :=
  ⟨MaskedValuePattern.isPattern value mask, fun bytes location => MaskedValuePattern.new value mask number prefixSize location bytes true⟩

def locatedPattern (mask : BitVec 32) (location number : Nat) : PatternClass :=
  ⟨LocatedMaskedPattern.isPattern mask location, fun bytes location => MaskedPattern.new mask number prefixSize location bytes true⟩

def patternZZZZ := valuePattern 0 0xFFFFFFFF 0
def patternFFFF := valuePattern 0xFFFFFFFF 0xFFFFFFFF 1
def patternMMMMPenultimate := locatedPattern 0xFFFFFFFF penultimateIndex 2
def patternMMMMPrevious := locatedPattern 0xFFFFFFFF previousIndex 3
def patternZZZX := valuePattern 0 0xFFFFFF00 4
def patternXZZZ := valuePattern 0 0x00FFFFFF 5
def patternRRRR : PatternClass :=
  ⟨RepeatedValuePattern.isPattern 32 8, fun bytes location => RepeatedValuePattern.new 32 8 6 prefixSize location bytes true⟩
def patternMMMXPenultimate := locatedPattern 0xFFFFFF00 penultimateIndex 7
def patternMMMXPrevious := locatedPattern 0xFFFFFF00 previousIndex 8
def patternZZXX := valuePattern 0 0xFFFF0000 9
def patternZXZX := valuePattern 0 0xFF00FF00 10
def patternFFXX := valuePattern 0xFFFFFFFF 0xFFFF0000 11
def patternXXZZ := valuePattern 0 0x0000FFFF 12
def patternMMXXPenultimate := locatedPattern 0xFFFF0000 penultimateIndex 13
def patternMMXXPrevious := locatedPattern 0xFFFF0000 previousIndex 14
def patternXXXX : PatternClass :=
  ⟨UncompressedPattern.isPattern, fun bytes location => UncompressedPattern.new 32 15 prefixSize location bytes⟩

/-- A table of two entries, first in first out. -/
def addToDictionary (_ : Params) (dict : Dictionary) (data : DictionaryEntry) : Except Fault Dictionary :=
  if dict.numEntries = 2 then
    match dict.dictionary[previousIndex]? with
    | none => .error .wild
    | some previous => do
      let dict ← dict.write penultimateIndex previous
      dict.write previousIndex data
  else dict.push data

end FPCD

def FPCD : DictionaryCompressor where
  width := 32
  factory := [FPCD.patternZZZZ, FPCD.patternFFFF, FPCD.patternMMMMPrevious, FPCD.patternMMMMPenultimate, FPCD.patternZZZX,
    FPCD.patternXZZZ, FPCD.patternRRRR, FPCD.patternMMMXPrevious, FPCD.patternMMMXPenultimate, FPCD.patternZZXX, FPCD.patternZXZX,
    FPCD.patternFFXX, FPCD.patternXXZZ, FPCD.patternMMXXPrevious, FPCD.patternMMXXPenultimate]
  last := FPCD.patternXXXX
  addToDictionary := FPCD.addToDictionary
  finish := withLatencies

def inOneCycle (data : CompData) : Outcome := { data, compLat := 1, decompLat := 1 }

def Zero : DictionaryCompressor where
  width := 64
  factory := [⟨MaskedValuePattern.isPattern (w := 64) 0 (allOnes 64),
    fun bytes location => MaskedValuePattern.new (w := 64) 0 (allOnes 64) 1 0 location bytes false⟩]
  last := ⟨UncompressedPattern.isPattern, fun bytes location => UncompressedPattern.new 64 0 0 location bytes⟩
  addToDictionary := addBounded "numEntries < dictionarySize"
  finish params dict _ data :=
    .ok (inOneCycle (if 0 < dict.numEntries then { data with sizeBits := params.blkSize * 8 } else data))

def RepeatedQwords : DictionaryCompressor where
  width := 64
  factory := [⟨LocatedMaskedPattern.isPattern (allOnes 64) 0,
    fun bytes location => MaskedPattern.new (allOnes 64) 1 0 location bytes false⟩]
  last := ⟨UncompressedPattern.isPattern, fun bytes location => UncompressedPattern.new 64 0 0 location bytes⟩
  addToDictionary := addBounded "numEntries < dictionarySize"
  finish params dict _ data := do
    Fault.ensure (decide (1 ≤ dict.numEntries)) "numEntries >= 1"
    return inOneCycle (if 1 < dict.numEntries then { data with sizeBits := params.blkSize * 8 } else data)

def DEFAULT_MAX_NUM_BASES : Nat := 2

def BaseDelta.text : String := "DictionaryCompressor<BaseType>::numEntries < DictionaryCompressor<BaseType>::dictionarySize"

/-- A delta is stored with one bit for its base. -/
def BaseDelta (width deltaSizeBits : Nat) : DictionaryCompressor where
  width
  factory := [⟨DeltaPattern.isPattern width deltaSizeBits, fun bytes location => DeltaPattern.new deltaSizeBits 1 1 location bytes⟩]
  last := ⟨UncompressedPattern.isPattern, fun bytes location => UncompressedPattern.new width 0 (1 + deltaSizeBits) location bytes⟩
  resetDictionary params dict := addBounded BaseDelta.text params dict (toDictionaryEntry (0 : BitVec width))
  addToDictionary := addBounded BaseDelta.text
  finish params dict chunks data := do
    let outcome ← withLatencies params dict chunks data
    if DEFAULT_MAX_NUM_BASES < dict.numEntries then
      return { outcome with data := { outcome.data with sizeBits := params.blkSize * 8 } }
    else
      return { outcome with
        data := { outcome.data with sizeBits := outcome.data.sizeBits + width * (DEFAULT_MAX_NUM_BASES - dict.numEntries) } }

/-- The compressors that the parameters of Compressors.py can make. -/
inductive Kind where
  | cpack
  | fpc
  | fpcd
  | zero
  | repeatedQwords
  | base64Delta8
  | base64Delta16
  | base64Delta32
  | base32Delta8
  | base32Delta16
  | base16Delta8
  deriving DecidableEq, Repr

def Kind.compressor : Kind → DictionaryCompressor
  | .cpack => CPack
  | .fpc => FPC
  | .fpcd => FPCD
  | .zero => Zero
  | .repeatedQwords => RepeatedQwords
  | .base64Delta8 => BaseDelta 64 8
  | .base64Delta16 => BaseDelta 64 16
  | .base64Delta32 => BaseDelta 64 32
  | .base32Delta8 => BaseDelta 32 8
  | .base32Delta16 => BaseDelta 32 16
  | .base16Delta8 => BaseDelta 16 8

def Kind.chunkSizeBits : Kind → Nat
  | .zero | .repeatedQwords | .base64Delta8 | .base64Delta16 | .base64Delta32 => 64
  | .base16Delta8 => 16
  | _ => 32

/-- The default dictionary_size. -/
def Kind.dictionarySize (cacheLineSize : Nat) : Kind → Nat
  | .fpc => 1
  | .fpcd => 2
  | _ => cacheLineSize

structure SubCompressor where
  kind : Kind
  params : Params
  deriving DecidableEq, Repr

/-- With the default sizes for a cache line. -/
structure SubCompressor.Default (sub : SubCompressor) (cacheLineSize : Nat) : Prop where
  blkSize : sub.params.blkSize = cacheLineSize
  chunkSizeBits : sub.params.chunkSizeBits = sub.kind.chunkSizeBits
  dictionarySize : sub.params.dictionarySize = sub.kind.dictionarySize cacheLineSize
  compChunksPerCycle : 0 < sub.params.compChunksPerCycle
  decompChunksPerCycle : 0 < sub.params.decompChunksPerCycle

namespace Multi

/-- What a sub-compressor made of the line. -/
structure Results where
  index : Nat
  compData : CompData
  decompLat : Nat
  compressionFactor : BitVec 8

/-- The order of the queue. -/
def Results.less (lhs rhs : Results) : Bool :=
  if lhs.compressionFactor = rhs.compressionFactor then decide (rhs.decompLat < lhs.decompLat)
  else decide (lhs.compressionFactor < rhs.compressionFactor)

def compressionFactor (blkSize : Nat) (data : CompData) : BitVec 8 :=
  let size := data.sizeBits / 8
  if blkSize < size then 1
  else if size = 0 then ofNat 8 blkSize
  else (alignToPowerOfTwo (ofNat 64 (blkSize / size))).setWidth 8

structure MultiCompData where
  index : BitVec 8
  compData : CompData
  sizeBits : Nat

structure Outcome where
  data : MultiCompData
  compLat : Nat
  decompLat : Nat

structure Compressor where
  params : Params
  encodingInTags : Bool
  compressors : List SubCompressor
  deriving DecidableEq, Repr

def Compressor.numEncodingBits (multi : Compressor) : Nat :=
  if multi.encodingInTags then 0 else (alignToPowerOfTwo (ofNat 64 multi.compressors.length)).toNat.log2

/-- What a priority queue promises of its top: it was pushed, and nothing is over it. -/
structure IsTop (top : List Results → Option Results) : Prop where
  pushed : ∀ results, results ≠ [] → ∃ best, top results = some best ∧ best ∈ results
  greatest : ∀ results best, top results = some best → ∀ other ∈ results, best.less other = false

/-- The loop over the sub-compressors from the `i`-th on, each with its dictionary. -/
def compressEach (multi : Compressor) (data : List (BitVec 64)) : List SubCompressor → List Dictionary → Nat →
    Except Fault (List Dictionary × List Results × Nat)
  | sub :: subs, dict :: dicts, i => do
    let (dict, outcome) ← sub.kind.compressor.compress sub.params dict data
    let compData := { outcome.data with sizeBits := outcome.data.sizeBits + multi.numEncodingBits }
    let (dicts, results, maxCompLat) ← compressEach multi data subs dicts (i + 1)
    return (dict :: dicts, ⟨i, compData, outcome.decompLat, compressionFactor multi.params.blkSize compData⟩ :: results,
      max outcome.compLat maxCompLat)
  | _, _, _ => .ok ([], [], 0)

/-- Multi::compress behind Base::compress, with the queue's choice of a top. -/
def compress (top : List Results → Option Results) (multi : Compressor) (dicts : List Dictionary) (line : List (BitVec 64)) :
    Except Fault (List Dictionary × Outcome) := do
  let data := fromChunks multi.params (toChunks multi.params line)
  let (dicts, results, maxCompLat) ← compressEach multi data multi.compressors dicts 0
  match top results with
  | none => .error .wild
  | some best =>
    return (dicts, {
      data := {
        index := ofNat 8 best.index, compData := best.compData
        sizeBits := thresholded multi.params best.compData.sizeBits }
      compLat := maxCompLat + multi.params.compExtraLatency
      decompLat := best.decompLat + multi.params.decompExtraLatency })

def decompress (outside : DictionaryEntry) (multi : Compressor) (dicts : List Dictionary) (data : MultiCompData) :
    Except Fault (List Dictionary × List (BitVec 64)) := do
  let index := data.index.toNat
  match multi.compressors[index]?, dicts[index]? with
  | some sub, some dict =>
    let (dict, line) ← sub.kind.compressor.decompress sub.params outside dict data.compData
    return (dicts.set index dict, line)
  | _, _ => .error .wild

end Multi

end ImcGem5.Mem.Compression
