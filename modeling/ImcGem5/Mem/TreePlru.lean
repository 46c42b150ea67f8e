import ImcGem5.Lib.Heap

/-! TreePLRU: the replacement policy whose entries share a tree of bits, kept as an array
in which the children of the node at i are those at 2i + 1 and 2i + 2. The entries are
the leaves, and they have indices but no bits. The number of leaves is an int, so no index
is wider than a word, and the floor of a quotient of two indices is exact. -/

namespace ImcGem5.Mem.TreePlru
open Lib

def parentIndex (index : Nat) : Except Fault Nat :=
  if index = 0 then .error .wild else .ok ((index - 1) / 2)

def leftSubtreeIndex (index : Nat) : Nat := 2 * index + 1

def rightSubtreeIndex (index : Nat) : Nat := 2 * index + 2

def isRightSubtree (index : Nat) : Bool := index % 2 == 0

abbrev PLRUTree := List Bool

def at' (tree : PLRUTree) (index : Nat) : Except Fault Bool :=
  match tree[index]? with
  | some bit => .ok bit
  | none => .error (.panic "out_of_range")

structure TreePLRUReplData where
  index : Nat
  /-- The address of the tree. -/
  tree : Nat
  deriving DecidableEq, Repr

def climb (store : Bool → Bool) : Nat → PLRUTree → Nat → Except Fault PLRUTree
  | 0, _, _ => .error .stuck
  | turns + 1, tree, treeIndex => do
    let right := isRightSubtree treeIndex
    let treeIndex ← parentIndex treeIndex
    let _ ← at' tree treeIndex
    let tree := tree.set treeIndex (store right)
    if treeIndex ≠ 0 then climb store turns tree treeIndex else return tree

def invalidate (trees : Heap PLRUTree) (data : TreePLRUReplData) : Except Fault (Heap PLRUTree) := do
  let tree ← trees.read data.tree
  let tree ← climb (fun right => right) (data.index + 1) tree data.index
  return trees.write data.tree tree

def touch (trees : Heap PLRUTree) (data : TreePLRUReplData) : Except Fault (Heap PLRUTree) := do
  let tree ← trees.read data.tree
  let tree ← climb (fun right => !right) (data.index + 1) tree data.index
  return trees.write data.tree tree

def reset (trees : Heap PLRUTree) (data : TreePLRUReplData) : Except Fault (Heap PLRUTree) := touch trees data

def descend : Nat → PLRUTree → Nat → Except Fault Nat
  | 0, _, _ => .error .stuck
  | turns + 1, tree, treeIndex =>
    if treeIndex < tree.length then do
      let bit ← at' tree treeIndex
      descend turns tree (if bit then rightSubtreeIndex treeIndex else leftSubtreeIndex treeIndex)
    else .ok treeIndex

def getVictim (numLeaves : Nat) (trees : Heap PLRUTree) (candidates : List TreePLRUReplData) :
    Except Fault TreePLRUReplData := do
  match candidates with
  | [] => .error (.assertion "candidates.size() > 0")
  | first :: _ =>
    let tree ← trees.read first.tree
    let treeIndex ← descend (tree.length + 1) tree 0
    match candidates[treeIndex - (numLeaves - 1)]? with
    | some victim => return victim
    | none => .error .wild

/-- The policy: how many entries it made, and its latest tree. -/
structure TreePLRU where
  numLeaves : Nat
  count : Nat := 0
  treeInstance : Nat := 0

/-- Every numLeaves entries have a new tree. -/
def TreePLRU.instantiateEntry (policy : TreePLRU) (trees : Heap PLRUTree) : TreePLRU × Heap PLRUTree × TreePLRUReplData :=
  let (trees, treeInstance) := if policy.count % policy.numLeaves = 0 then trees.alloc (List.replicate (policy.numLeaves - 1) false)
    else (trees, policy.treeInstance)
  ({ policy with count := policy.count + 1, treeInstance }, trees,
    { index := policy.count % policy.numLeaves + policy.numLeaves - 1, tree := treeInstance })

def TreePLRU.instantiateEntries : Nat → TreePLRU → Heap PLRUTree → TreePLRU × Heap PLRUTree × List TreePLRUReplData
  | 0, policy, trees => (policy, trees, [])
  | entries + 1, policy, trees =>
    let (policy, trees, first) := policy.instantiateEntry trees
    let (policy, trees, rest) := policy.instantiateEntries entries trees
    (policy, trees, first :: rest)

/-- What a cache does whose set is full, again and again. -/
def evictions (numLeaves : Nat) (candidates : List TreePLRUReplData) : Nat → Heap PLRUTree →
    Except Fault (List TreePLRUReplData × Heap PLRUTree)
  | 0, trees => .ok ([], trees)
  | rounds + 1, trees => do
    let victim ← getVictim numLeaves trees candidates
    let trees ← touch trees victim
    let (victims, trees) ← evictions numLeaves candidates rounds trees
    return (victim :: victims, trees)

end ImcGem5.Mem.TreePlru
