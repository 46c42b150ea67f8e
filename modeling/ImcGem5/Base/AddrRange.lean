import ImcGem5.Mem.Packet
import Mathlib.Data.List.Sort

/-! AddrRange with interleaving: of the addresses between its ends, a range has those whose
bits under each mask have the right parity. The offset of an address leaves out one bit for
each mask. -/

namespace ImcGem5.Base.Interleaving
open Lib Mem
open BitVec (allOnes ofNat)

def mask (nbits : BitVec 32) : BitVec 64 := if 64 ≤ nbits.toNat then allOnes 64 else (1#64 <<< nbits.toNat) - 1

def mbits (val : BitVec 64) (first last : BitVec 32) : BitVec 64 := val &&& (mask (first + 1) &&& ~~~mask last)

/-- insertBits of a field; `first >= last` holds wherever it is used, since `last` is zero or
`first`. -/
def insertBits (val : BitVec 64) (first last : BitVec 32) (bitVal : BitVec 64) : BitVec 64 :=
  let bmask := mbits (allOnes 64) first last
  (val &&& ~~~bmask) ||| ((bitVal <<< last.toNat) &&& bmask)

def insertBit (val : BitVec 64) (bit : Nat) (bitVal : BitVec 64) : BitVec 64 :=
  insertBits val (ofNat 32 bit) (ofNat 32 bit) bitVal

/-- bits(val, bit) of a uint8_t, as it is when assigned to an address. -/
def bits (val : BitVec 8) (bit : Nat) : BitVec 64 := (val >>> bit).setWidth 64 &&& mask 1

def popCount (val : BitVec 64) : Nat := (List.range 64).countP val.getLsbD

def ctz64 (value : BitVec 64) : Nat := value.ctz.toNat

/-- A match value that does not fit into the interleaving bits is fatal. -/
structure AddrRange where
  start : Addr
  stop : Addr
  masks : List Addr
  intlvMatch : BitVec 8
  fits : masks ≠ [] → intlvMatch.toNat < 2 ^ masks.length

namespace AddrRange

def interleaved (range : AddrRange) : Bool := !range.masks.isEmpty

def size (range : AddrRange) : Addr := (range.stop - range.start) >>> range.masks.length

/-- The loop of contains, over an int. -/
def selLoop (a : Addr) : Nat → List Addr → BitVec 32 → BitVec 32
  | _, [], sel => sel
  | i, mask :: rest, sel => selLoop a (i + 1) rest (sel ||| ofNat 32 (popCount (a &&& mask) % 2) <<< i)

def sel (range : AddrRange) (a : Addr) : BitVec 32 := selLoop a 0 range.masks 0

def inRange (range : AddrRange) (a : Addr) : Bool := range.start.ule a && a.ult range.stop

def contains (range : AddrRange) (a : Addr) : Bool :=
  if range.inRange a then range.sel a == range.intlvMatch.setWidth 32 else false

def masksLsb (range : AddrRange) : List Nat := (range.masks.map ctz64).insertionSort (· ≤ ·)

/-- The loop of removeIntlvBits. The position is unsigned: it wraps when the bit to take out
has come down to position zero, and then no bit is inserted. -/
def removeLoop : Nat → List Nat → Addr → Addr
  | _, [], a => a
  | i, intlvBit :: rest, a =>
    removeLoop (i + 1) rest
      (if 0 < intlvBit then insertBits (a >>> 1) (ofNat 32 intlvBit - ofNat 32 i - 1) 0 a else a >>> 1)

def removeIntlvBits (range : AddrRange) (a : Addr) : Addr :=
  if range.interleaved then removeLoop 0 range.masksLsb a else a

/-- The first loop of addIntlvBits. -/
def addLoop : List Nat → Addr → Addr
  | [], a => a
  | intlvBit :: rest, a =>
    addLoop rest (if 0 < intlvBit then insertBits (a <<< 1) (ofNat 32 (intlvBit - 1)) 0 a else a <<< 1)

/-- The second loop of addIntlvBits, where `1 << lsb` is an int. -/
def selectLoop (intlvMatch : BitVec 8) : Nat → List Addr → Addr → Addr
  | _, [], a => a
  | i, mask :: rest, a =>
    let lsb := ctz64 mask
    let intlvBit := bits intlvMatch i
    let masked := a &&& mask &&& (~~~(1#32 <<< lsb)).signExtend 64
    selectLoop intlvMatch (i + 1) rest (insertBit a lsb (intlvBit ^^^ ofNat 64 (popCount masked)))

def addIntlvBits (range : AddrRange) (a : Addr) : Addr :=
  if range.interleaved then selectLoop range.intlvMatch 0 range.masks (addLoop range.masksLsb a) else a

def getOffset (range : AddrRange) (a : Addr) : Addr :=
  if !range.inRange a then allOnes 64
  else if range.interleaved then range.removeIntlvBits a - range.removeIntlvBits range.start
  else a - range.start

/-- The constructor of two addresses. -/
def plain (start stop : Addr) : AddrRange := ⟨start, stop, [], 0, fun interleaved => absurd rfl interleaved⟩

def valid (range : AddrRange) : Bool := range.start.ule range.stop

/-- The bits of all masks. They are gathered in an int, which keeps the low 32 of them. -/
def combinedMask (masks : List Addr) : BitVec 32 :=
  masks.foldl (fun combined mask => (combined.signExtend 64 ||| mask).setWidth 32) 0

/-- `1ULL << lowest_bit`, as hosts shift: by the amount modulo 64. -/
def granularity (range : AddrRange) : BitVec 64 :=
  if range.interleaved then 1#64 <<< (ctz64 ((combinedMask range.masks).signExtend 64) % 64) else range.size

def mergesWith (range other : AddrRange) : Bool :=
  other.start == range.start && other.stop == range.stop && other.masks == range.masks

def intersects (range other : AddrRange) : Option Bool :=
  if other.stop.ule range.start || range.stop.ule other.start then some false
  else if !range.interleaved && !other.interleaved then some true
  else if other.size == 1 then some (range.contains other.start)
  else if range.mergesWith other then some (range.intlvMatch == other.intlvMatch)
  else none

def isSubset (range other : AddrRange) : Option Bool :=
  if range.interleaved then none
  else if other.interleaved then
    some (other.contains range.start && other.contains (range.stop - 1) && range.size.ule other.granularity)
  else some (other.start.ule range.start && range.stop.ule other.stop)

def before (range other : AddrRange) : Bool :=
  if range.start != other.start then range.start.ult other.start
  else if range.interleaved && other.interleaved then range.intlvMatch.ult other.intlvMatch
  else range.interleaved

def sort (ranges : List AddrRange) : List AddrRange := ranges.insertionSort fun one other => other.before one = false

/-- The loop of exclude. Its assertion and the panic of intersects are `none`. -/
def excludeLoop (range : AddrRange) (nextStart : Addr) : List AddrRange → List AddrRange → Option (List AddrRange)
  | [], ranges => some (if nextStart.ult range.stop then ranges ++ [plain nextStart range.stop] else ranges)
  | e :: rest, ranges =>
    if e.interleaved then none
    else match range.intersects e with
      | none => none
      | some false => excludeLoop range nextStart rest ranges
      | some true =>
        if e.start.ule nextStart then
          if e.stop.ult range.stop then
            excludeLoop range (if nextStart.ult e.stop then e.stop else nextStart) rest ranges
          else some ranges
        else if e.stop.ult range.stop then excludeLoop range e.stop rest (ranges ++ [plain nextStart e.start])
        else some (ranges ++ [plain nextStart e.start])

def exclude (range : AddrRange) (excludeRanges : List AddrRange) : Option (List AddrRange) :=
  if range.interleaved then none else range.excludeLoop range.start (sort excludeRanges) []

end AddrRange
end ImcGem5.Base.Interleaving
