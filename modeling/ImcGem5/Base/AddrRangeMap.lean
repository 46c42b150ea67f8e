import ImcGem5.Mem.Abstract
import ImcGem5.Lib.Runs

/-! AddrRangeMap: address decoding by an ordered map of ranges, with a list of the
entries that were used last. An iterator is the address of a map node; looking
through an iterator whose node is gone is a host access out of bounds. -/

namespace ImcGem5.Mem.AddrRange

/-- No range here is interleaved, so the first test decides. -/
def intersects (range r : AddrRange) : Bool := !(r.stop.ule range.start || range.stop.ule r.start)

def mergesWith (range r : AddrRange) : Bool := r.start == range.start && r.stop == range.stop

/-- operator<, which looks at the ends of no range. -/
def precedes (range r : AddrRange) : Bool := range.start.ult r.start

def Nonempty (range : AddrRange) : Prop := range.start < range.stop

instance (range : AddrRange) : Decidable range.Nonempty := inferInstanceAs (Decidable (_ < _))

end ImcGem5.Mem.AddrRange

namespace ImcGem5.Base
open Lib Mem

structure RangeNode (V : Type) where
  node : Nat
  first : AddrRange
  second : V
  deriving DecidableEq, Repr

/-- `tree` lists the nodes of the std::map in its order, and `nodes` counts those it
ever allocated. -/
structure AddrRangeMap (V : Type) where
  tree : List (RangeNode V) := []
  cache : List Nat := []
  nodes : Nat := 0
  deriving DecidableEq, Repr

/-- The entries std::map::upper_bound leaves behind. -/
def notAfter {V : Type} (r : AddrRange) (entry : RangeNode V) : Bool := !r.precedes entry.first

/-- The do-while loop of find, over the entries before the upper bound turned around. -/
def walkBack {V : Type} (cond : AddrRange → Bool) : RangeNode V → List (RangeNode V) → Option Nat
  | i, [] => if cond i.first then some i.node else none
  | i, next :: earlier =>
    if cond i.first then some i.node
    else if next.first.mergesWith i.first then walkBack cond next earlier
    else none

/-- The part of find that looks at the tree. -/
def searchTree {V : Type} (tree : List (RangeNode V)) (r : AddrRange) (cond : AddrRange → Bool) : Option Nat :=
  match (tree.dropWhile (notAfter r)).head?.filter (fun next => cond next.first) with
  | some next => some next.node
  | none =>
    match (tree.takeWhile (notAfter r)).reverse with
    | [] => none
    | last :: earlier => walkBack cond last earlier

namespace AddrRangeMap

variable {V : Type}

def deref (map : AddrRangeMap V) (it : Nat) : Except Abort (RangeNode V) :=
  match map.tree.find? (·.node == it) with
  | some entry => .ok entry
  | none => .error .outOfBounds

/-- The loop of find over the cache, from `c` on. -/
def searchCache (map : AddrRangeMap V) (cond : AddrRange → Bool) : List Nat → Except Abort (Option Nat)
  | [] => .ok none
  | it :: c => do
    let entry ← map.deref it
    if cond entry.first then return some it else searchCache map cond c

/-- `maxCacheSize` is an int, and compared with a size it is a size. -/
def addNewEntryToCache (maxCacheSize : BitVec 32) (cache : List Nat) (it : Nat) : List Nat :=
  if maxCacheSize ≠ 0 then
    if (maxCacheSize.signExtend 64).toNat ≤ cache.length then
      if 1 < maxCacheSize.toInt then it :: cache.dropLast else cache.dropLast ++ [it]
    else it :: cache
  else cache

def find (maxCacheSize : BitVec 32) (map : AddrRangeMap V) (r : AddrRange) (cond : AddrRange → Bool) :
    Except Abort (AddrRangeMap V × Option Nat) := do
  match ← map.searchCache cond map.cache with
  | some it =>
    -- nothing before the match is the match, so the first occurrence is the element that moves
    return ({ map with cache := it :: map.cache.erase it }, some it)
  | none =>
    match searchTree map.tree r cond with
    | some it => return ({ map with cache := addNewEntryToCache maxCacheSize map.cache it }, some it)
    | none => return (map, none)

def contains (maxCacheSize : BitVec 32) (map : AddrRangeMap V) (r : AddrRange) :
    Except Abort (AddrRangeMap V × Option Nat) :=
  map.find maxCacheSize r r.isSubset

def intersects (maxCacheSize : BitVec 32) (map : AddrRangeMap V) (r : AddrRange) :
    Except Abort (AddrRangeMap V × Option Nat) :=
  map.find maxCacheSize r r.intersects

/-- std::map::insert, which leaves an entry with an equivalent key as it is. -/
def insertNode (map : AddrRangeMap V) (r : AddrRange) (d : V) : AddrRangeMap V × Nat :=
  match map.tree.find? (fun entry => !r.precedes entry.first && !entry.first.precedes r) with
  | some entry => (map, entry.node)
  | none => ({ map with
      tree := map.tree.takeWhile (notAfter r) ++ ⟨map.nodes, r, d⟩ :: map.tree.dropWhile (notAfter r)
      nodes := map.nodes + 1 }, map.nodes)

def insert (maxCacheSize : BitVec 32) (map : AddrRangeMap V) (r : AddrRange) (d : V) :
    Except Abort (AddrRangeMap V × Option Nat) := do
  match ← map.intersects maxCacheSize r with
  | (map, some _) => return (map, none)
  | (map, none) =>
    let (map, it) := map.insertNode r d
    return (map, some it)

/-- erase of one iterator; erasing a node that is not there is undefined. -/
def erase (map : AddrRangeMap V) (p : Nat) : Except Abort (AddrRangeMap V) := do
  let _ ← map.deref p
  return { map with cache := map.cache.filter (· != p), tree := map.tree.filter (·.node != p) }

def clear (map : AddrRangeMap V) : AddrRangeMap V := { map with cache := [], tree := [] }

end AddrRangeMap

inductive RangeOp (V : Type) where
  | insert (r : AddrRange) (d : V)
  | erase (p : Nat)
  | clear
  | contains (r : AddrRange)
  | intersects (r : AddrRange)
  deriving DecidableEq, Repr

namespace AddrRangeMap

/-- One call on the map; the label is the iterator it returns, if it returns one. -/
def step {V : Type} (maxCacheSize : BitVec 32) : Step (AddrRangeMap V) (RangeOp V) (Option Nat) Abort
  | map, .insert r d => do let (map, it) ← map.insert maxCacheSize r d; return (map, [it])
  | map, .erase p => do let map ← map.erase p; return (map, [])
  | map, .clear => return (map.clear, [])
  | map, .contains r => do let (map, it) ← map.contains maxCacheSize r; return (map, [it])
  | map, .intersects r => do let (map, it) ← map.intersects maxCacheSize r; return (map, [it])

/-- What the callers of the map promise: ranges are not empty, and what is erased is
still there. -/
def Allowed {V : Type} (map : AddrRangeMap V) : RangeOp V → Prop
  | .insert r _ => r.Nonempty
  | .erase p => ∃ entry ∈ map.tree, entry.node = p
  | .clear => True
  | .contains r => r.Nonempty
  | .intersects r => r.Nonempty

instance {V : Type} (map : AddrRangeMap V) : ∀ op, Decidable (map.Allowed op)
  | .insert r _ => inferInstanceAs (Decidable r.Nonempty)
  | .erase p => inferInstanceAs (Decidable (∃ entry ∈ map.tree, entry.node = p))
  | .clear => .isTrue trivial
  | .contains r => inferInstanceAs (Decidable r.Nonempty)
  | .intersects r => inferInstanceAs (Decidable r.Nonempty)

end AddrRangeMap

end ImcGem5.Base
