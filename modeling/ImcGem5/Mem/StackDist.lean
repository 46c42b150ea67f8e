import ImcGem5.Lib.Heap
import ImcGem5.Mem.Packet

/-! StackDistCalc: stack distances from a binary tree of partial sums. The leaves
are the accesses in the order they were made; what is to the right of a leaf was
accessed later. -/

namespace ImcGem5.Mem
open Lib Function

structure StackNode where
  sumLeft : Nat := 0
  sumRight : Nat := 0
  discardLeft : Bool := false
  discardRight : Bool := false
  nodeIndex : Nat := 0
  parent : Option Nat := none
  isLeftNode : Bool := true
  isMarked : Bool := false
  deriving DecidableEq, Repr

/-- `tree level index` is what `tree[level][index]` points to, `treeDepth` is
`tree.size() - 1`, and `stack` has its last element first. The counters do not wrap:
none of them passes the number of calls. -/
structure StackDistCalc where
  verifyStack : Bool
  nodes : Heap StackNode
  index : Nat
  tree : Nat → Nat → Option Nat
  treeDepth : Nat
  aiMap : Addr → Option Nat
  nextIndex : Nat → Nat
  stack : List Addr

/-- `1 << i`, an int, where an unsigned 64-bit number is compared with it. -/
def intShift (i : Nat) : Nat := ((1#32 <<< i).signExtend 64).toNat

def isPowerOf2 (n : Nat) : Bool := n != 0 && n &&& (n - 1) == 0

def Fault.panicIf (condition : Bool) (message : String) : Except Fault Unit :=
  if condition then .error (.panic message) else .ok ()

namespace StackDistCalc

def infinity : Nat := 2 ^ 64 - 1

/-- `tree[level][index] = entry`, or an erase. -/
def setTree (state : StackDistCalc) (level index : Nat) (entry : Option Nat) : StackDistCalc :=
  { state with tree := update state.tree level (update (state.tree level) index entry) }

/-- The constructor: an empty leaf layer and a root above it. -/
def new (verifyStack : Bool) : StackDistCalc :=
  let (nodes, root) := ({ cell := fun _ => none, next := 0 } : Heap StackNode).alloc {}
  let state : StackDistCalc :=
    { verifyStack, nodes, index := 0, tree := fun _ _ => none, treeDepth := 1, aiMap := fun _ => none,
      nextIndex := fun level => if level = 1 then 1 else 0, stack := [] }
  state.setTree 1 0 (some root)

/-- The checks that updateSum makes on a node when verification is on. -/
def checkSums (state : StackDistCalc) (node : StackNode) (level : Nat) : Except Fault Unit :=
  if state.verifyStack then do
    Fault.panicIf (decide (intShift (level - 1) < node.sumLeft)) "Error in sum left of level %ul, node index %ull, Sum =  %ull"
    Fault.panicIf (decide (intShift (level - 1) < node.sumRight)) "Error in sum right of level %ul, node index %ull, Sum =  %ull"
  else .ok ()

/-- Update sums up to the root, and delete the nodes that are not used any more. The
recursion goes from parent to parent, so it has as many turns as the tree has layers. -/
def updateSum : Nat → StackDistCalc → Nat → Bool → Nat → Nat → Nat → Bool → Except Fault (StackDistCalc × Nat)
  | 0, _, _, _, _, _, _, _ => .error .stuck
  | turns + 1, state, address, fromLeft, sumFromBelow, below, stackDist, discardNode => do
    let level := below + 1
    let node ← state.nodes.read address
    state.checkSums node level
    let sumLeft := if fromLeft then sumFromBelow else node.sumLeft
    let sumRight := if fromLeft then node.sumRight else sumFromBelow
    let stackDist := if fromLeft then stackDist + node.sumRight else stackDist
    let emptied := discardNode && sumFromBelow == 0
    let discardLeft := node.discardLeft || (emptied && fromLeft)
    let discardRight := node.discardRight || (emptied && !fromLeft)
    let nodes := state.nodes.write address { node with sumLeft, sumRight, discardLeft, discardRight }
    let discarded := discardLeft && discardRight && discardNode && node.parent.isSome && sumFromBelow == 0
    let state :=
      if discarded then { state with nodes := nodes.free address }.setTree level node.nodeIndex none
      else { state with nodes }
    match node.parent with
    | none => return (state, stackDist)
    | some parent => updateSum turns state parent node.isLeftNode (sumLeft + sumRight) level stackDist discarded

/-- The parent of a leaf; every leaf is below some node. -/
def leafParent (node : StackNode) : Except Fault Nat :=
  match node.parent with
  | some parent => .ok parent
  | none => .error .wild

def updateSumsLeavesToRoot (state : StackDistCalc) (address : Nat) (isNewLeaf : Bool) :
    Except Fault (StackDistCalc × Nat) := do
  let node ← state.nodes.read address
  let parent ← leafParent node
  if isNewLeaf then
    let state := { state with nodes := state.nodes.write address { node with sumLeft := 1 } }
    let (state, _) ← updateSum state.treeDepth state parent node.isLeftNode 1 0 0 false
    return (state, infinity)
  else
    let state := { state with nodes := state.nodes.write address { node with sumLeft := 0 } }
    updateSum state.treeDepth state parent node.isLeftNode 0 0 0 true

/-- The sums to the right, collected up to the root. The sum from below and the level
that the source passes on are not used there. -/
def getSum : Nat → StackDistCalc → Nat → Bool → Nat → Except Fault Nat
  | 0, _, _, _, _ => .error .stuck
  | turns + 1, state, address, fromLeft, stackDist => do
    let node ← state.nodes.read address
    let stackDist := if fromLeft then stackDist + node.sumRight else stackDist
    match node.parent with
    | none => return stackDist
    | some parent => getSum turns state parent node.isLeftNode stackDist

def getSumsLeavesToRoot (state : StackDistCalc) (address : Nat) : Except Fault Nat := do
  let node ← state.nodes.read address
  let parent ← leafParent node
  getSum state.treeDepth state parent node.isLeftNode 0

/-- A new inner node in layer `i`, linked to the last node of the layer above. -/
def addINode (state : StackDistCalc) (i : Nat) : StackDistCalc :=
  let added := state.nextIndex i
  let (nodes, address) := state.nodes.alloc
    { isLeftNode := added % 2 == 0, nodeIndex := added, parent := state.tree (i + 1) (state.nextIndex (i + 1) - 1) }
  { state with nodes, nextIndex := update state.nextIndex i (added + 1) }.setTree i added (some address)

/-- The loops of updateTree over the layers, from the top down to layer 1. -/
def addINodes (required : Nat → Bool) : Nat → StackDistCalc → StackDistCalc
  | 0, state => state
  | i + 1, state => addINodes required i (if required (i + 1) then state.addINode (i + 1) else state)

/-- OP1: the root moves one layer up. -/
def addRoot (state : StackDistCalc) : Except Fault StackDistCalc :=
  match state.tree state.treeDepth 0 with
  | none => .error .wild
  | some old => do
    let oldRoot ← state.nodes.read old
    let (nodes, root) := state.nodes.alloc
      { sumLeft := oldRoot.sumRight + oldRoot.sumLeft, discardLeft := oldRoot.discardLeft && oldRoot.discardRight }
    let nodes ← nodes.modify old ({ · with parent := some root })
    let treeDepth := state.treeDepth + 1
    let state := { state with nodes, treeDepth, nextIndex := update state.nextIndex treeDepth 1 }
    return state.setTree treeDepth 0 (some root)

def updateTree (state : StackDistCalc) : Except Fault StackDistCalc :=
  if isPowerOf2 state.index then do
    let state ← state.addRoot
    return addINodes (fun _ => true) (state.treeDepth - 1) state
  else return addINodes (fun i => state.index % intShift i == 0) (state.treeDepth - 1) state

/-- The loop of sanityCheckTree, from the parent of a leaf up. -/
def climb (state : StackDistCalc) : Nat → Nat → Except Fault Nat
  | 0, address => .ok address
  | steps + 1, address => do
    let node ← state.nodes.read address
    match node.parent with
    | none => .error (.panic "Sanity check failed for node %ull")
    | some parent => climb state steps parent

def sanityCheckTree (state : StackDistCalc) (address : Nat) : Except Fault Unit := do
  let node ← state.nodes.read address
  let parent ← leafParent node
  let top ← state.climb (state.treeDepth - 1) parent
  let root ← state.nodes.read top
  Fault.panicIf root.parent.isSome "Sanity check failed for node %ull"

def stackPosition (stack : List Addr) (address : Addr) : Nat :=
  if address ∈ stack then stack.idxOf address else infinity

def verifyStackDist (state : StackDistCalc) (address : Addr) (updateStack : Bool) : StackDistCalc × Nat :=
  let distance := stackPosition state.stack address
  if updateStack then ({ state with stack := address :: state.stack.erase address }, distance) else (state, distance)

def discardLeaf (state : StackDistCalc) (rIndex : Nat) : Except Fault (StackDistCalc × Nat × Bool) :=
  match state.tree 0 rIndex with
  | none => .error .wild
  | some leaf => do
    let (state, stackDist) ← state.updateSumsLeavesToRoot leaf false
    let node ← state.nodes.read leaf
    return ({ state with nodes := state.nodes.free leaf }.setTree 0 rIndex none, stackDist, node.isMarked)

/-- The two ways a lookup in aiMap ends; an address that is not there is infinitely far. -/
def discardFound (state : StackDistCalc) : Option Nat → Except Fault (StackDistCalc × Nat × Bool)
  | some rIndex => state.discardLeaf rIndex
  | none => .ok (state, infinity, false)

/-- The checks at the end of an access when verification is on. -/
def verifyAccess (state : StackDistCalc) (leaf : Nat) (address : Addr) (stackDist : Nat) : Except Fault StackDistCalc :=
  if state.verifyStack then do
    state.sanityCheckTree leaf
    let (state, verifyStackDist) := state.verifyStackDist address true
    Fault.panicIf (verifyStackDist != stackDist) "Expected stack-distance for address %#lx is %#lx but found %#lx"
    return state
  else .ok state

def beginPair (state : StackDistCalc) : Except Fault StackDistCalc :=
  if state.index % 2 == 0 then state.updateTree else .ok state

def addLeaf (state : StackDistCalc) (address : Addr) (stackDist : Nat) : Except Fault StackDistCalc := do
  let state ← state.beginPair
  let nextIndex := update state.nextIndex 0 (state.nextIndex 0 + 1)
  let (nodes, leaf) := state.nodes.alloc
    { nodeIndex := state.index, isLeftNode := state.index % 2 == 0, parent := state.tree 1 (state.nextIndex 1 - 1) }
  let state := { state with nodes, nextIndex }.setTree 0 state.index (some leaf)
  let (state, _) ← state.updateSumsLeavesToRoot leaf true
  let state ← state.verifyAccess leaf address stackDist
  return { state with index := state.index + 1 }

def calcStackDistAndUpdate (state : StackDistCalc) (address : Addr) (addNewNode : Bool) :
    Except Fault (StackDistCalc × Nat × Bool) := do
  let found := state.aiMap address
  let state := { state with aiMap := update state.aiMap address (if addNewNode then some state.index else none) }
  let (state, stackDist, mark) ← state.discardFound found
  if addNewNode then
    let state ← state.addLeaf address stackDist
    return (state, stackDist, mark)
  else return (state, stackDist, mark)

def inspect (state : StackDistCalc) (address : Addr) (mark : Bool) : Except Fault (StackDistCalc × Nat × Bool) :=
  match state.aiMap address with
  | none => .ok (state, infinity, false)
  | some rIndex =>
    match state.tree 0 rIndex with
    | none => .error .wild
    | some leaf => do
      let node ← state.nodes.read leaf
      let state := { state with nodes := state.nodes.write leaf { node with isMarked := mark } }
      let stackDist ← state.getSumsLeavesToRoot leaf
      return (state, stackDist, node.isMarked)

def calcStackDist (state : StackDistCalc) (address : Addr) (mark : Bool) : Except Fault (StackDistCalc × Nat × Bool) := do
  let (state, stackDist, old) ← state.inspect address mark
  if state.verifyStack then
    let (state, verifyStackDist) := state.verifyStackDist address false
    Fault.panicIf (verifyStackDist != stackDist) "Expected stack-distance for address %#lx is %#lx but found %#lx"
    return (state, stackDist, old)
  else return (state, stackDist, old)

end StackDistCalc

/-- A call of the calculator. -/
inductive StackCall where
  | update (address : Addr) (addNewNode : Bool)
  | inspect (address : Addr) (mark : Bool)
  deriving DecidableEq, Repr

/-- One call; its label is the pair that it returns. -/
def StackDistCalc.step : Step StackDistCalc StackCall (Nat × Bool) Fault := fun state call => do
  let (state, returned) ← match call with
    | .update address addNewNode => state.calcStackDistAndUpdate address addNewNode
    | .inspect address mark => state.calcStackDist address mark
  return (state, [returned])

/-- What the calculator is for: a stack of addresses, the last used on top. -/
abbrev LruStack := List Addr

namespace LruStack

def distance (stack : LruStack) (address : Addr) : Nat :=
  if address ∈ stack then stack.idxOf address else StackDistCalc.infinity

def apply (stack : LruStack) : StackCall → Nat × LruStack
  | .update address true => (distance stack address, address :: stack.erase address)
  | .update address false => (distance stack address, stack.erase address)
  | .inspect address _ => (distance stack address, stack)

/-- The distances that a sequence of calls should return. -/
def distances (stack : LruStack) : List StackCall → List Nat
  | [] => []
  | call :: calls => (apply stack call).1 :: distances (apply stack call).2 calls

/-- The stack that a sequence of calls should leave. -/
def after (stack : LruStack) : List StackCall → LruStack
  | [] => stack
  | call :: calls => after (apply stack call).2 calls

end LruStack
end ImcGem5.Mem
