import Mathlib.Data.Multiset.AddSub
import Mathlib.Logic.Function.Basic
import ImcGem5.Lib.Heap

/-! The Huffman encoder of the cache compressors. -/

namespace ImcGem5.Mem.Encoder
open Lib

structure Code where
  code : BitVec 64 := 0
  length : Nat := 0
  deriving DecidableEq, Repr

/-- Huffman::Node, which has both subtrees or none. -/
inductive Node where
  | leaf (value frequency : BitVec 64)
  | inner (left right : Node)
  deriving DecidableEq, Repr

/-- What the constructors of nodes compute. -/
def Node.getFrequency : Node → BitVec 64
  | .leaf _ frequency => frequency
  | .inner left right => left.getFrequency + right.getFrequency

/-- Huffman::NodeComparator -/
def NodeComparator (lhs rhs : Node) : Bool := decide (rhs.getFrequency < lhs.getFrequency)

structure PriorityQueue (α Q : Type) where
  push : Q → α → Q
  size : Q → Nat
  top : Q → Option α
  pop : Q → Q

structure PriorityQueue.Lawful {α Q : Type} (queue : PriorityQueue α Q) (compare : α → α → Bool) (contents : Q → Multiset α) : Prop where
  push : ∀ q element, contents (queue.push q element) = element ::ₘ contents q
  size : ∀ q, queue.size q = (contents q).card
  empty : ∀ q, contents q = 0 → queue.top q = none
  top : ∀ q, contents q ≠ 0 → ∃ element, queue.top q = some element ∧ contents q = element ::ₘ contents (queue.pop q) ∧
    ∀ other ∈ contents q, compare element other = false

structure Huffman (Q : Type) where
  maxCodeLength : Nat
  /-- Checked by the constructor. -/
  bounded : maxCodeLength ≤ 64
  trees : Q
  valueToCode : BitVec 64 → Option Code := fun _ => none
  codeToValue : BitVec 64 → Option (BitVec 64) := fun _ => none

namespace Huffman

variable {Q : Type} (queue : PriorityQueue Node Q)

def sample (huffman : Huffman Q) (value frequency : BitVec 64) : Huffman Q :=
  if frequency ≠ 0 then { huffman with trees := queue.push huffman.trees (.leaf value frequency) } else huffman

def top (trees : Q) : Except Fault Node :=
  match queue.top trees with
  | none => .error .wild
  | some node => .ok node

def mergeTrees : Nat → Q → Except Fault Q
  | 0, _ => .error .stuck
  | turns + 1, trees =>
    if 1 < queue.size trees then do
      let left ← top queue trees
      let trees := queue.pop trees
      let right ← top queue trees
      let trees := queue.pop trees
      mergeTrees turns (queue.push trees (.inner left right))
    else .ok trees

def buildTree (trees : Q) : Except Fault (Q × Node) := do
  let trees ← mergeTrees queue (queue.size trees + 1) trees
  let root ← top queue trees
  return (queue.pop trees, root)

def extend (current : Code) (right : Bool) : Code :=
  { code := if right then (current.code <<< 1) + 1 else current.code <<< 1, length := current.length + 1 }

def generateCodes (huffman : Huffman Q) : Node → Code → Huffman Q
  | .leaf value _, current =>
    if huffman.maxCodeLength < current.length then huffman
    else
      { huffman with
        valueToCode := Function.update huffman.valueToCode value (some current)
        codeToValue := Function.update huffman.codeToValue current.code (some value) }
  | .inner left right, current =>
    if huffman.maxCodeLength < current.length then huffman
    else (huffman.generateCodes right (extend current true)).generateCodes left (extend current false)

def generateCodeMaps (huffman : Huffman Q) : Except Fault (Huffman Q) := do
  let (trees, root) ← buildTree queue huffman.trees
  return { huffman with trees, valueToCode := fun _ => none, codeToValue := fun _ => none }.generateCodes root {}

def encode (huffman : Huffman Q) (val : BitVec 64) : Code :=
  match huffman.valueToCode val with
  | none => { code := 0, length := 65 }
  | some code => code

def decode (huffman : Huffman Q) (code : BitVec 64) : Except Fault (BitVec 64) :=
  match huffman.codeToValue code with
  | none => .error (.assertion "it != codeToValue.end()")
  | some value => .ok value

/-- Sampling pairs of a value and its frequency. -/
def sampleAll (huffman : Huffman Q) (samples : List (BitVec 64 × BitVec 64)) : Huffman Q :=
  samples.foldl (fun huffman sample => huffman.sample queue sample.1 sample.2) huffman

end Huffman

end ImcGem5.Mem.Encoder
