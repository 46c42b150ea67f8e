import ImcGem5.Base.AddrRange
import ImcGem5.Base.AddrRangeMap

/-! AddrRangeMap with ranges that may be interleaved, and with the erasing of all entries from one
iterator up to another. Tests of ranges that cannot be compared panic. -/

namespace ImcGem5.Base.Interleaving
open Lib Mem

structure RangeEntry (V : Type) where
  node : Nat
  first : AddrRange
  second : V

/-- `tree` lists the nodes of the std::map in its order, and `nodes` counts those it ever allocated. -/
structure AddrRangeMap (V : Type) where
  tree : List (RangeEntry V) := []
  cache : List Nat := []
  nodes : Nat := 0

abbrev Condition := AddrRange → Except Abort Bool

def tested (message : String) : Option Bool → Except Abort Bool
  | some answer => .ok answer
  | none => .error (.panic message)

variable {V : Type}

/-- The entries that std::map::upper_bound leaves behind. -/
def notAfter (r : AddrRange) (entry : RangeEntry V) : Bool := !r.before entry.first

/-- The do-while loop of find, over the entries before the upper bound turned around. -/
def walkBack (cond : Condition) : RangeEntry V → List (RangeEntry V) → Except Abort (Option Nat)
  | i, [] => do if ← cond i.first then return some i.node else return none
  | i, next :: earlier => do
    if ← cond i.first then return some i.node
    else if next.first.mergesWith i.first then walkBack cond next earlier
    else return none

/-- The test of the upper bound in find, where `next` is the first of the entries from there on. -/
def upperBoundFits (cond : Condition) : List (RangeEntry V) → Except Abort (Option Nat)
  | [] => return none
  | next :: _ => do if ← cond next.first then return some next.node else return none

def searchTree (tree : List (RangeEntry V)) (r : AddrRange) (cond : Condition) : Except Abort (Option Nat) := do
  match ← upperBoundFits cond (tree.dropWhile (notAfter r)) with
  | some it => return some it
  | none =>
    match (tree.takeWhile (notAfter r)).reverse with
    | [] => return none
    | last :: earlier => walkBack cond last earlier

namespace AddrRangeMap

def deref (map : AddrRangeMap V) (it : Nat) : Except Abort (RangeEntry V) :=
  match map.tree.find? (·.node == it) with
  | some entry => .ok entry
  | none => .error .outOfBounds

def searchCache (map : AddrRangeMap V) (cond : Condition) : List Nat → Except Abort (Option Nat)
  | [] => .ok none
  | it :: c => do
    let entry ← map.deref it
    if ← cond entry.first then return some it else searchCache map cond c

def find (maxCacheSize : BitVec 32) (map : AddrRangeMap V) (r : AddrRange) (cond : Condition) :
    Except Abort (AddrRangeMap V × Option Nat) := do
  match ← map.searchCache cond map.cache with
  | some it => return ({ map with cache := it :: map.cache.erase it }, some it)
  | none =>
    match ← searchTree map.tree r cond with
    | some it => return ({ map with cache := Base.AddrRangeMap.addNewEntryToCache maxCacheSize map.cache it }, some it)
    | none => return (map, none)

def contains (maxCacheSize : BitVec 32) (map : AddrRangeMap V) (r : AddrRange) : Except Abort (AddrRangeMap V × Option Nat) :=
  map.find maxCacheSize r fun r1 => tested "Cannot test subset of interleaved range" (r.isSubset r1)

def intersects (maxCacheSize : BitVec 32) (map : AddrRangeMap V) (r : AddrRange) : Except Abort (AddrRangeMap V × Option Nat) :=
  map.find maxCacheSize r fun r1 => tested "Cannot test intersection" (r.intersects r1)

/-- std::map::insert, which leaves an entry with an equivalent key as it is. -/
def insertNode (map : AddrRangeMap V) (r : AddrRange) (d : V) : AddrRangeMap V × Nat :=
  match map.tree.find? (fun entry => !r.before entry.first && !entry.first.before r) with
  | some entry => (map, entry.node)
  | none => ({ map with
      tree := map.tree.takeWhile (notAfter r) ++ ⟨map.nodes, r, d⟩ :: map.tree.dropWhile (notAfter r)
      nodes := map.nodes + 1 }, map.nodes)

def insert (maxCacheSize : BitVec 32) (map : AddrRangeMap V) (r : AddrRange) (d : V) : Except Abort (AddrRangeMap V × Option Nat) := do
  match ← map.intersects maxCacheSize r with
  | (map, some _) => return (map, none)
  | (map, none) =>
    let (map, it) := map.insertNode r d
    return (map, some it)

/-- erase of one iterator; erasing a node that is not there is undefined. -/
def erase (map : AddrRangeMap V) (p : Nat) : Except Abort (AddrRangeMap V) := do
  let _ ← map.deref p
  return { map with cache := map.cache.filter (· != p), tree := map.tree.filter (·.node != p) }

/-- The iterators that `it` goes through on the way to `q`, where none is end(). Going past end() is undefined. -/
def nodesTo (q : Option Nat) : List (RangeEntry V) → Except Abort (List Nat)
  | [] => if q = none then .ok [] else .error .outOfBounds
  | entry :: rest => if q = some entry.node then .ok [] else do return entry.node :: (← nodesTo q rest)

def between (map : AddrRangeMap V) (p q : Option Nat) : Except Abort (List Nat) :=
  match p with
  | none => nodesTo q ([] : List (RangeEntry V))
  | some p => do
    let _ ← map.deref p
    nodesTo q (map.tree.dropWhile (·.node != p))

/-- erase of two iterators. Its loop removes `p` from the cache at each turn. -/
def eraseRange (map : AddrRangeMap V) (p q : Option Nat) : Except Abort (AddrRangeMap V) := do
  let erased ← map.between p q
  return { map with
    cache := erased.foldl (fun cache _ => cache.filter fun it => some it != p) map.cache
    tree := map.tree.filter fun entry => !erased.contains entry.node }

def clear (map : AddrRangeMap V) : AddrRangeMap V := { map with cache := [], tree := [] }

end AddrRangeMap

inductive RangeMapOp (V : Type) where
  | insert (r : AddrRange) (d : V)
  | erase (p : Nat)
  | eraseRange (p q : Option Nat)
  | clear
  | contains (r : AddrRange)
  | intersects (r : AddrRange)

/-- One call on the map; the label is the iterator it returns, if it returns one. -/
def AddrRangeMap.step (maxCacheSize : BitVec 32) : Step (AddrRangeMap V) (RangeMapOp V) (Option Nat) Abort
  | map, .insert r d => do let (map, it) ← map.insert maxCacheSize r d; return (map, [it])
  | map, .erase p => do let map ← map.erase p; return (map, [])
  | map, .eraseRange p q => do let map ← map.eraseRange p q; return (map, [])
  | map, .clear => return (map.clear, [])
  | map, .contains r => do let (map, it) ← map.contains maxCacheSize r; return (map, [it])
  | map, .intersects r => do let (map, it) ← map.intersects maxCacheSize r; return (map, [it])

end ImcGem5.Base.Interleaving
