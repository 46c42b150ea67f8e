import ImcGem5.Lib.Runs
import ImcGem5.Mem.PortProxy
import Mathlib.Logic.Function.Basic

/-! TranslationGen and its iterators, as variables of a caller that copies, assigns and increments them. -/

namespace ImcGem5.Mem
open Lib

/-- A generator, with what its subclass does to translate a range. -/
structure TranslationGen where
  start : Addr
  size : Addr
  translate : TranslationGen.Range → TranslationGen.Range

deriving instance DecidableEq for TranslationGen.Range

structure TranslationGenConstIterator where
  current : TranslationGen.Range := { vaddr := 0, size := 0 }
  gen : Bool := false
  isEnd : Bool := true
  deriving DecidableEq

namespace TranslationGenConstIterator

def update (parent : TranslationGen) (it : TranslationGenConstIterator) : TranslationGenConstIterator :=
  let size := parent.size - (it.current.vaddr - parent.start)
  let current := { it.current with paddr := 0, size }
  if size = 0 then { current := { current with vaddr := 0 }, gen := false, isEnd := true }
  else { it with current := parent.translate current }

/-- The constructor of begin(). -/
def make (parent : TranslationGen) (start : Addr) : TranslationGenConstIterator :=
  update parent { current := { vaddr := start, size := 0 }, gen := true, isEnd := false }

/-- The copy constructor. -/
def copy (other : TranslationGenConstIterator) : TranslationGenConstIterator := { current := other.current, gen := other.gen }

/-- operator= -/
def assign (it other : TranslationGenConstIterator) : TranslationGenConstIterator :=
  { it with gen := other.gen, current := other.current }

/-- operator++ -/
def increment (parent : TranslationGen) (it : TranslationGenConstIterator) : Except Abort TranslationGenConstIterator := do
  panicIf it.isEnd "Can't increment end iterator."
  require it.gen "gen"
  let current := if !it.current.fault then { it.current with vaddr := it.current.vaddr + it.current.size }
    else { it.current with fault := false }
  return update parent { it with current }

/-- operator++(int), with the iterator that it returns. -/
def postIncrement (parent : TranslationGen) (it : TranslationGenConstIterator) :
    Except Abort (TranslationGenConstIterator × TranslationGenConstIterator) := do
  let orig := copy it
  let it ← increment parent it
  return (it, orig)

/-- operator== -/
def equal (it other : TranslationGenConstIterator) : Bool := other.gen == it.gen && other.current.vaddr == it.current.vaddr

end TranslationGenConstIterator

namespace TranslationGen

def begin (gen : TranslationGen) : TranslationGenConstIterator := .make gen gen.start

/-- end() -/
def end_ (_ : TranslationGen) : TranslationGenConstIterator := {}

end TranslationGen

inductive IteratorOp where
  | begin (it : Nat)
  | end_ (it : Nat)
  | copy (it other : Nat)
  | assign (it other : Nat)
  | preIncrement (it : Nat)
  | postIncrement (orig it : Nat)
  | read (it : Nat)
  | equal (it other : Nat)
  deriving DecidableEq

inductive IteratorResult where
  | range (range : TranslationGen.Range)
  | equal (same : Bool)
  deriving DecidableEq

abbrev Iterators := Nat → TranslationGenConstIterator

namespace TranslationGen
open Function (update)

def step (gen : TranslationGen) : Step Iterators IteratorOp IteratorResult Abort := fun iterators op =>
  match op with
  | .begin it => .ok (update iterators it gen.begin, [])
  | .end_ it => .ok (update iterators it gen.end_, [])
  | .copy it other => .ok (update iterators it (iterators other).copy, [])
  | .assign it other => .ok (update iterators it ((iterators it).assign (iterators other)), [])
  | .preIncrement it => do
    let next ← (iterators it).increment gen
    return (update iterators it next, [])
  | .postIncrement orig it => do
    let (next, old) ← (iterators it).postIncrement gen
    return (update (update iterators it next) orig old, [])
  | .read it => .ok (iterators, [.range (iterators it).current])
  | .equal it other => .ok (iterators, [.equal ((iterators it).equal (iterators other))])

end TranslationGen

end ImcGem5.Mem
