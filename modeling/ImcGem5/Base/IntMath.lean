import Mathlib.Algebra.GroupWithZero.Nat
import Mathlib.Tactic.Common

/-! The multiplications of two words to a high and a low word. Compilers with a type of 128 bits
use that. A result is the pair of `high` and `low`. -/

namespace ImcGem5.Base

def lowHalf (val : BitVec 64) : BitVec 64 := (val.setWidth 32).setWidth 64

def highHalf (val : BitVec 64) : BitVec 64 := lowHalf (val >>> 32)

/-- The two sums that c2 is made of: the halves, and the bits that were cut off. -/
def sumHalves (c1 Ab aB : BitVec 64) : BitVec 64 := (c1 >>> 1) + (Ab >>> 1) + (aB >>> 1)

def sumBits (c1 Ab aB : BitVec 64) : BitVec 64 := (c1 &&& 1) + (Ab &&& 1) + (aB &&& 1)

def mulUnsignedManual (valA valB : BitVec 64) : BitVec 64 × BitVec 64 :=
  let low := valA * valB
  let A := highHalf valA
  let a := lowHalf valA
  let B := highHalf valB
  let b := lowHalf valB
  let ab := a * b
  let Ab := A * b
  let aB := a * B
  let AB := A * B
  let c1 := highHalf ab
  let c2 := sumHalves c1 Ab aB
  let c2 := c2 + (sumBits c1 Ab aB >>> 1)
  let c2 := c2 >>> 31
  (AB + c2, low)

/-- `int128` says whether __SIZEOF_INT128__ is defined. -/
def mulUnsigned (int128 : Bool) (valA valB : BitVec 64) : BitVec 64 × BitVec 64 :=
  if int128 then
    let val := valA.setWidth 128 * valB.setWidth 128
    ((val >>> 64).setWidth 64, val.setWidth 64)
  else mulUnsignedManual valA valB

def mulSignedManual (int128 : Bool) (valA valB : BitVec 64) : BitVec 64 × BitVec 64 :=
  let (high, low) := mulUnsigned int128 valA valB
  let high := if valA.slt 0 then high - valB else high
  let high := if valB.slt 0 then high - valA else high
  (high, low)

def mulSigned (int128 : Bool) (valA valB : BitVec 64) : BitVec 64 × BitVec 64 :=
  if int128 then
    let val := valA.signExtend 128 * valB.signExtend 128
    ((val.sshiftRight 64).setWidth 64, val.setWidth 64)
  else mulSignedManual int128 valA valB

end ImcGem5.Base
