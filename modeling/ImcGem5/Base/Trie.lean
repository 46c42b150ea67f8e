import ImcGem5.Lib.Heap

/-! The trie of base/trie.hh: a map from prefixes of keys to values. Values may sit on
inner nodes, and a node is known to its user by its address. -/

namespace ImcGem5.Base
open Lib

/-- Keys have `w` bits. A null value marks an inner node. -/
structure TrieNode (w : Nat) (V : Type) where
  key : BitVec w
  mask : BitVec w
  value : Option V
  parent : Option Nat := none
  kid0 : Option Nat := none
  kid1 : Option Nat := none
  deriving DecidableEq, Repr

namespace TrieNode

variable {w : Nat} {V : Type}

def matchesKey (node : TrieNode w V) (test : BitVec w) : Bool := test &&& node.mask == node.key

/-- The constructor, which tidies up the key. -/
def new (key mask : BitVec w) (val : Option V) : TrieNode w V := { key := key &&& mask, mask, value := val }

def kid (node : TrieNode w V) : Bool → Option Nat
  | false => node.kid0
  | true => node.kid1

def setKid (node : TrieNode w V) (leg : Bool) (kid : Option Nat) : TrieNode w V :=
  match leg with
  | false => { node with kid0 := kid }
  | true => { node with kid1 := kid }

end TrieNode

abbrev Trie (w : Nat) (V : Type) := Heap (TrieNode w V)

/-- `~(Key)0`, shifted when the width asks for it. -/
def widthMask (w width : Nat) : BitVec w :=
  if width < w then BitVec.allOnes w <<< (w - width) else BitVec.allOnes w

def extendMask {w : Nat} (orig : BitVec w) : BitVec w := orig ||| orig >>> 1 ||| 1#w <<< (w - 1)

/-- The do-while loop that walks down one leg. It returns the last mask on which the
key and the kid still agree, or the whole new mask. -/
def walkLeg {w : Nat} (key kidKey newMask : BitVec w) : Nat → BitVec w → Except Fault (BitVec w)
  | 0, _ => .error .stuck
  | turns + 1, lastMask =>
    let curMask := extendMask lastMask
    if key &&& curMask != kidKey &&& curMask || lastMask == newMask then .ok lastMask
    else walkLeg key kidKey newMask turns curMask

namespace Trie

variable {w : Nat} {V : Type}

def head : Nat := 0

def empty : Trie w V :=
  { cell := Function.update (fun _ => none) head (some (.new 0 0 none)), next := 1 }

def goesAfter (trie : Trie w V) (kid : Option Nat) (key newMask : BitVec w) : Except Fault (Option Nat) :=
  match kid with
  | none => return none
  | some address => do
    let node ← trie.read address
    return if node.matchesKey key && node.mask &&& newMask == node.mask then some address else none

/-- Past all nodes that the new one goes after. -/
def walk (trie : Trie w V) (key newMask : BitVec w) : Nat → Nat → Except Fault Nat
  | 0, _ => .error .stuck
  | turns + 1, address => do
    let node ← trie.read address
    match ← trie.goesAfter node.kid0 key newMask with
    | some kid => walk trie key newMask turns kid
    | none =>
      match ← trie.goesAfter node.kid1 key newMask with
      | some kid => walk trie key newMask turns kid
      | none => return address

/-- One turn of the loop over the kids, with the new node's address unless the leg is
skipped. Masks grow at each turn of a walk, so `w + 1` turns are enough. -/
def insertLeg (trie : Trie w V) (place : Nat) (leg : Bool) (key newMask : BitVec w) (val : V) :
    Except Fault (Option (Trie w V × Nat)) := do
  let node ← trie.read place
  match node.kid leg with
  | none =>
    let (trie, added) := trie.alloc { TrieNode.new key newMask (some val) with parent := some place }
    let trie ← trie.modify place (·.setKid leg (some added))
    return some (trie, added)
  | some kid =>
    let kidNode ← trie.read kid
    let curMask ← walkLeg key kidNode.key newMask (w + 1) node.mask
    if curMask == node.mask then return none
    else
      let (trie, inner) := trie.alloc { TrieNode.new key curMask none with parent := some place }
      let trie ← trie.modify kid ({ · with parent := some inner })
      let trie ← trie.modify inner ({ · with kid0 := some kid })
      let trie ← trie.modify place (·.setKid leg (some inner))
      if curMask == newMask then
        let trie ← trie.modify inner ({ · with value := some val })
        return some (trie, inner)
      else
        let (trie, added) := trie.alloc { TrieNode.new key newMask (some val) with parent := some inner }
        let trie ← trie.modify inner ({ · with kid1 := some added })
        return some (trie, added)

def insert (trie : Trie w V) (key : BitVec w) (width : Nat) (val : V) : Except Fault (Trie w V × Nat) := do
  let newMask := widthMask w width
  let key := key &&& newMask
  let address ← trie.walk key newMask (w + 1) head
  let node ← trie.read address
  if node.mask == newMask then
    Fault.ensure node.value.isNone "!node->value"
    let trie ← trie.modify address ({ · with value := some val })
    return (trie, address)
  else
    match ← trie.insertLeg address false key newMask val with
    | some added => return added
    | none =>
      match ← trie.insertLeg address true key newMask val with
      | some added => return added
      | none => .error (.panic "Reached the end of the Trie insert function!")

def kidMatches (trie : Trie w V) (kid : Option Nat) (key : BitVec w) : Except Fault (Option Nat) :=
  match kid with
  | none => return none
  | some address => do
    let node ← trie.read address
    return if node.matchesKey key then some address else none

def lookupFrom (trie : Trie w V) (key : BitVec w) : Nat → Nat → Except Fault (Option Nat)
  | 0, _ => .error .stuck
  | turns + 1, address => do
    let node ← trie.read address
    if node.value.isSome then return some address
    else
      match ← trie.kidMatches node.kid0 key with
      | some kid => lookupFrom trie key turns kid
      | none =>
        match ← trie.kidMatches node.kid1 key with
        | some kid => lookupFrom trie key turns kid
        | none => return none

def lookupHandle (trie : Trie w V) (key : BitVec w) : Except Fault (Option Nat) := trie.lookupFrom key (w + 1) head

def lookup (trie : Trie w V) (key : BitVec w) : Except Fault (Option V) := do
  match ← trie.lookupHandle key with
  | some handle =>
    let node ← trie.read handle
    return node.value
  | none => return none

def fillKid0 (parent : TrieNode w V) : TrieNode w V :=
  if parent.kid1.isSome && parent.kid0.isNone then { parent with kid0 := parent.kid1, kid1 := none } else parent

def adopt (trie : Trie w V) (kid : Option Nat) (parent : Nat) : Except Fault (Trie w V) :=
  match kid with
  | some address => trie.modify address ({ · with parent := some parent })
  | none => .ok trie

/-- Figure out which kid a node is, and put another in its place. -/
def replaceKid (trie : Trie w V) (parent address : Nat) (kid : Option Nat) : Except Fault (Trie w V) := do
  let parentNode ← trie.read parent
  if parentNode.kid0 = some address then trie.modify parent ({ · with kid0 := kid })
  else if parentNode.kid1 = some address then trie.modify parent ({ · with kid1 := kid })
  else .error (.panic "Trie: Inconsistent parent/kid relationship.")

/-- Unlink a node that has at most one kid from its parent. -/
def unlink (trie : Trie w V) (address : Nat) (node : TrieNode w V) (parent : Nat) : Except Fault (Trie w V) := do
  let trie ← trie.adopt node.kid0 parent
  let trie ← trie.replaceKid parent address node.kid0
  trie.modify parent fillKid0

/-- Removal goes on with the parent when that is left without a use; the height of the
trie bounds how often. -/
def removeIn : Nat → Trie w V → Nat → Except Fault (Trie w V × Option V)
  | 0, _, _ => .error .stuck
  | turns + 1, trie, address => do
    let node ← trie.read address
    if node.kid1.isSome then
      Fault.ensure node.value.isSome "node->value"
      let trie ← trie.modify address ({ · with value := none })
      return (trie, node.value)
    else
      match node.parent with
      | none => .error (.panic "Trie: Can't remove root node.")
      | some parent =>
        let trie ← trie.unlink address node parent
        let parentNode ← trie.read parent
        if parentNode.kid1.isNone && parentNode.value.isNone && parentNode.parent.isSome then
          let (trie, _) ← removeIn turns trie parent
          return (trie.free address, node.value)
        else return (trie.free address, node.value)

def remove (trie : Trie w V) (handle : Nat) : Except Fault (Trie w V × Option V) := removeIn (w + 1) trie handle

/-- Whether a node carries a value for a prefix. -/
def stores (trie : Trie w V) (key : BitVec w) (width : Nat) (handle : Nat) : Bool :=
  match trie.cell handle with
  | some node => node.value.isSome && node.mask == widthMask w width && node.matchesKey key
  | none => false

def live (trie : Trie w V) (handle : Nat) : Bool :=
  match trie.cell handle with
  | some node => node.value.isSome
  | none => false

end Trie

inductive TrieOp (w : Nat) (V : Type) where
  | insert (key : BitVec w) (width : Nat) (val : V)
  | remove (handle : Nat)
  | lookup (key : BitVec w)
  deriving DecidableEq, Repr

inductive TrieLabel (w : Nat) (V : Type) where
  | inserted (handle : Nat) (key : BitVec w) (width : Nat) (val : V)
  | removed (handle : Nat) (val : Option V)
  | found (key : BitVec w) (val : Option V)
  deriving DecidableEq, Repr

namespace Trie

variable {w : Nat} {V : Type}

def step : Step (Trie w V) (TrieOp w V) (TrieLabel w V) Fault
  | trie, .insert key width val => do
    let (trie, handle) ← trie.insert key width val
    return (trie, [.inserted handle key width val])
  | trie, .remove handle => do
    let (trie, val) ← trie.remove handle
    return (trie, [.removed handle val])
  | trie, .lookup key => do
    let val ← trie.lookup key
    return (trie, [.found key val])

def Allowed (trie : Trie w V) : TrieOp w V → Prop
  | .insert key width _ => 1 ≤ width ∧ width ≤ w ∧ ∀ handle < trie.next, trie.stores key width handle = false
  | .remove handle => trie.live handle = true
  | .lookup _ => True

instance (trie : Trie w V) : ∀ op, Decidable (Allowed trie op)
  | .insert _ _ _ => inferInstanceAs (Decidable (_ ∧ _ ∧ ∀ handle < trie.next, _ = false))
  | .remove _ => inferInstanceAs (Decidable (_ = true))
  | .lookup _ => .isTrue trivial

end Trie

end ImcGem5.Base
