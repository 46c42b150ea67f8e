import ImcGem5.Lib.Runs
import ImcGem5.Mem.Packet

/-! A saturating counter of some bits in a container of an unsigned type. Its post-increment and
post-decrement do what the operators here do. -/

namespace ImcGem5.Base
open Lib Mem

inductive Container where
  | uint8 | uint16 | uint32 | uint64
  deriving DecidableEq, Repr

def Container.width : Container → Nat
  | .uint8 => 8
  | .uint16 => 16
  | .uint32 => 32
  | .uint64 => 64

structure GenericSatCounter (T : Container) where
  initialVal : BitVec T.width
  maxVal : BitVec T.width
  counter : BitVec T.width

namespace GenericSatCounter

variable {T : Container}

/-- The constructor. Both checks are fatal. -/
def make (T : Container) (bits : BitVec 32) (initialVal : BitVec T.width) : Except Abort (GenericSatCounter T) := do
  let maxVal := ((1#64 <<< (bits.toNat % 64)) - 1).setWidth T.width
  panicIf (decide (T.width < bits.toNat)) "Number of bits exceeds counter size"
  panicIf (maxVal.ult initialVal) "Saturating counter's initial value exceeds max value."
  return ⟨initialVal, maxVal, initialVal⟩

def increment (sat : GenericSatCounter T) : GenericSatCounter T :=
  if sat.counter.ult sat.maxVal then { sat with counter := sat.counter + 1#T.width } else sat

def decrement (sat : GenericSatCounter T) : GenericSatCounter T :=
  if (0#T.width).ult sat.counter then { sat with counter := sat.counter - 1#T.width } else sat

def shiftRight (sat : GenericSatCounter T) (shift : BitVec 32) : Except Abort (GenericSatCounter T) := do
  require (!shift.slt 0) "shift >= 0"
  return { sat with counter := sat.counter >>> shift.toNat }

/-- operator<<=. What an int keeps of the shifted value is lost in the container. -/
def shiftLeft (sat : GenericSatCounter T) (shift : BitVec 32) : Except Abort (GenericSatCounter T) := do
  require (!shift.slt 0) "shift >= 0"
  let counter := sat.counter <<< shift.toNat
  return { sat with counter := if sat.maxVal.ult counter then sat.maxVal else counter }

/-- A difference of two containers, which is one of ints if the type is narrower than that. -/
def difference (x y : BitVec T.width) : Int := if T.width < 32 then x.toNat - y.toNat else (x - y).toNat

/-- A long long as it is compared with a container. -/
def compared (T : Container) (value : BitVec 64) : Int := if T.width = 64 then value.toNat else value.toInt

def addPositive (sat : GenericSatCounter T) (value : BitVec 64) : GenericSatCounter T :=
  if compared T value ≤ difference sat.maxVal sat.counter then { sat with counter := sat.counter + value.setWidth T.width }
  else { sat with counter := sat.maxVal }

def subtractPositive (sat : GenericSatCounter T) (value : BitVec 64) : GenericSatCounter T :=
  if compared T value < sat.counter.toNat then { sat with counter := sat.counter - value.setWidth T.width }
  else { sat with counter := 0#T.width }

/-- operator+=. The other operator takes what is negative, and would give the most negative value back. -/
def add (sat : GenericSatCounter T) (value : BitVec 64) : GenericSatCounter T :=
  if 0 ≤ value.toInt then sat.addPositive value else sat.subtractPositive (-value)

def subtract (sat : GenericSatCounter T) (value : BitVec 64) : GenericSatCounter T :=
  if 0 ≤ value.toInt then sat.subtractPositive value else sat.addPositive (-value)

def reset (sat : GenericSatCounter T) : GenericSatCounter T := { sat with counter := sat.initialVal }

/-- With the value that was added. -/
def saturate (sat : GenericSatCounter T) : GenericSatCounter T × BitVec T.width :=
  ({ sat with counter := sat.maxVal }, sat.maxVal - sat.counter)

end GenericSatCounter

inductive SatOp where
  | increment
  | decrement
  | shiftRight (shift : BitVec 32)
  | shiftLeft (shift : BitVec 32)
  | add (value : BitVec 64)
  | subtract (value : BitVec 64)
  | saturate
  | reset
  deriving DecidableEq, Repr

namespace GenericSatCounter

def apply {T : Container} (sat : GenericSatCounter T) : SatOp → Except Abort (GenericSatCounter T)
  | .increment => .ok sat.increment
  | .decrement => .ok sat.decrement
  | .shiftRight shift => sat.shiftRight shift
  | .shiftLeft shift => sat.shiftLeft shift
  | .add value => .ok (sat.add value)
  | .subtract value => .ok (sat.subtract value)
  | .saturate => .ok sat.saturate.1
  | .reset => .ok sat.reset

/-- One operation, with the value that is read after it. -/
def step {T : Container} : Step (GenericSatCounter T) SatOp (BitVec T.width) Abort := fun sat op => do
  let sat ← sat.apply op
  return (sat, [sat.counter])

end GenericSatCounter

end ImcGem5.Base
