import Mathlib.Algebra.GroupWithZero.Nat
import Mathlib.Data.List.Perm.Basic
import Mathlib.Data.List.Nodup

/-! Linked lists whose iterators stay good while other nodes come and go. A node keeps its
identity for as long as it lives, so an iterator is the identity of a node. -/

namespace ImcGem5.Lib
open List
open Prod (fst snd)

universe u

structure NodeList (α : Type u) where
  nodes : List (Nat × α)
  /-- Identities from here on were never used. -/
  fresh : Nat
  nodup : (nodes.map fst).Nodup
  older : ∀ node ∈ nodes, node.1 < fresh

namespace NodeList

variable {α : Type u}

def empty : NodeList α := ⟨[], 0, nodup_nil, fun _ inside => absurd inside not_mem_nil⟩

def values (list : NodeList α) : List α := list.nodes.map snd

def elsewhere (position : Option Nat) (node : Nat × α) : Bool := decide (some node.1 ≠ position)

/-- Before a node, or at the end. -/
def place (nodes : List (Nat × α)) (position : Option Nat) (node : Nat × α) : List (Nat × α) :=
  nodes.takeWhile (elsewhere position) ++ node :: nodes.dropWhile (elsewhere position)

theorem place_perm (nodes : List (Nat × α)) (position : Option Nat) (node : Nat × α) : (place nodes position node).Perm (node :: nodes) := by
  unfold place
  refine perm_middle.trans ?_
  rw [takeWhile_append_dropWhile]

theorem place_end (nodes : List (Nat × α)) (node : Nat × α) : place nodes none node = nodes ++ [node] := by
  have all : ∀ other ∈ nodes, elsewhere none other = true := fun _ _ => rfl
  have taken : nodes.takeWhile (elsewhere none) = nodes := by
    simpa using @takeWhile_append_of_pos _ _ nodes [] all
  have dropped : nodes.dropWhile (elsewhere none) = [] := by
    simpa using @dropWhile_append_of_pos _ _ nodes [] all
  rw [place, taken, dropped]

theorem place_before {before after : List (Nat × α)} {node : Nat × α} (apart : node.1 ∉ before.map fst) (other : Nat × α) :
    place (before ++ node :: after) (some node.1) other = before ++ other :: node :: after := by
  have skipped : ∀ earlier ∈ before, elsewhere (some node.1) earlier = true := by
    intro earlier inside
    refine decide_eq_true fun same => apart ?_
    rw [← Option.some.inj same]
    exact mem_map_of_mem inside
  have stops : elsewhere (some node.1) node = false := decide_eq_false (not_not_intro rfl)
  rw [place, takeWhile_append_of_pos skipped, dropWhile_append_of_pos skipped, takeWhile_cons_of_neg (by simp [stops]),
    dropWhile_cons_of_neg (by simp [stops]), append_nil]

/-- The new list and the iterator of the new node. -/
def insert (list : NodeList α) (position : Option Nat) (value : α) : NodeList α × Nat :=
  ({ nodes := place list.nodes position (list.fresh, value)
     fresh := list.fresh + 1
     nodup := by
      rw [((place_perm list.nodes position (list.fresh, value)).map fst).nodup_iff, map_cons, nodup_cons]
      refine ⟨fun used => ?_, list.nodup⟩
      obtain ⟨node, inside, same⟩ := List.mem_map.mp used
      exact absurd (list.older node inside) (by rw [same]; exact Nat.lt_irrefl _)
     older := by
      intro node inside
      rw [(place_perm list.nodes position (list.fresh, value)).mem_iff, mem_cons] at inside
      obtain rfl | inside := inside
      · exact Nat.lt_succ_self _
      · exact Nat.lt_succ_of_lt (list.older node inside) }, list.fresh)

def node? (list : NodeList α) (iterator : Nat) : Option (Nat × α) := list.nodes.find? fun node => node.1 == iterator

def without (list : NodeList α) (iterator : Nat) : NodeList α where
  nodes := list.nodes.eraseP fun node => node.1 == iterator
  fresh := list.fresh
  nodup := list.nodup.sublist (List.eraseP_sublist.map fst)
  older := fun node inside => list.older node (List.eraseP_sublist.subset inside)

def erase (list : NodeList α) (iterator : Nat) : Option (NodeList α) := (list.node? iterator).map fun _ => list.without iterator

def findFrom (list : NodeList α) (iterator : Nat) (pred : α → Bool) : Option Nat :=
  ((list.nodes.dropWhile fun node => node.1 != iterator).find? fun node => pred node.2).map fst

section Nodes
variable {list : NodeList α} {node : Nat × α}

section

variable (inside : node ∈ list.nodes)
include inside

theorem node?_of_mem : list.node? node.1 = some node := by
  obtain ⟨before, after, split⟩ := append_of_mem inside
  have apart : node.1 ∉ before.map fst := by
    have nodup := list.nodup
    rw [split, map_append, map_cons] at nodup
    exact fun used => (nodup_append.mp nodup).2.2 _ used _ mem_cons_self rfl
  rw [node?, find?_eq_some_iff_append]
  refine ⟨beq_self_eq_true _, before, after, split, fun _ member => ?_⟩
  rw [Bool.not_eq_true', beq_eq_false_iff_ne]
  rintro same
  exact apart (same ▸ mem_map_of_mem member)

theorem eq_of_id {other : Nat × α} (there : other ∈ list.nodes) (same : node.1 = other.1) : node = other := by
  have found := node?_of_mem inside
  rw [same, node?_of_mem there] at found
  exact (Option.some.inj found).symm

theorem without_perm : list.nodes.Perm (node :: (list.without node.1).nodes) := by
  obtain ⟨first, before, after, _, picked, split, rest⟩ := exists_of_eraseP (p := fun other : Nat × α => other.1 == node.1) inside
    (beq_self_eq_true _)
  have here : first ∈ list.nodes := by
    rw [split]
    exact mem_append_cons_self
  obtain rfl : first = node := eq_of_id here inside (beq_iff_eq.mp picked)
  have gone : (list.without first.1).nodes = before ++ after := rest
  rw [gone, split]
  exact perm_middle

theorem erase_of_mem : list.erase node.1 = some (list.without node.1) := by
  rw [erase, node?_of_mem inside]
  rfl

end

theorem without_sublist (iterator : Nat) : (list.without iterator).nodes.Sublist list.nodes := eraseP_sublist

end Nodes

def splice (list : NodeList α) (position : Option Nat) (iterator : Nat) : Option (NodeList α) :=
  if position = some iterator then some list
  else
    match found : list.node? iterator with
    | none => none
    | some node =>
      have kept : (place (list.without node.1).nodes position node).Perm list.nodes :=
        (place_perm _ _ _).trans (without_perm (mem_of_find?_eq_some found)).symm
      some {
        nodes := place (list.without node.1).nodes position node
        fresh := list.fresh
        nodup := (kept.map fst).nodup_iff.mpr list.nodup
        older := fun other inside => list.older other (kept.mem_iff.mp inside) }

section Values
variable {list : NodeList α} {node : Nat × α}

theorem values_insert (position : Option Nat) (value : α) : (list.insert position value).1.values.Perm (value :: list.values) :=
  (place_perm list.nodes position (list.fresh, value)).map snd

theorem values_insert_end (value : α) : (list.insert none value).1.values = list.values ++ [value] := by
  have placed := congrArg (map snd) (place_end list.nodes (list.fresh, value))
  rw [map_append] at placed
  exact placed

theorem values_insert_before {before after : List (Nat × α)} (split : list.nodes = before ++ node :: after) (value : α) :
    (list.insert (some node.1) value).1.values = before.map snd ++ value :: node.2 :: after.map snd := by
  have apart : node.1 ∉ before.map fst := by
    have nodup := list.nodup
    rw [split, map_append, map_cons] at nodup
    exact fun used => (nodup_append.mp nodup).2.2 _ used _ mem_cons_self rfl
  have placed := congrArg (map snd) (@place_before _ before after _ apart (list.fresh, value))
  rw [← split, map_append] at placed
  exact placed

theorem values_without (inside : node ∈ list.nodes) : list.values.Perm (node.2 :: (list.without node.1).values) :=
  (without_perm inside).map snd

theorem mem_insert {position : Option Nat} {value : α} :
    node ∈ (list.insert position value).1.nodes ↔ node = (list.fresh, value) ∨ node ∈ list.nodes := by
  rw [insert, (place_perm list.nodes position (list.fresh, value)).mem_iff, mem_cons]

theorem mem_without {other : Nat × α} (inside : node ∈ list.nodes) (there : other ∈ list.nodes) (apart : other ≠ node) :
    other ∈ (list.without node.1).nodes := by
  have moved := (without_perm inside).mem_iff.mp there
  rw [mem_cons] at moved
  exact moved.resolve_left apart

theorem findFrom_self (inside : node ∈ list.nodes) {pred : α → Bool} (holds : pred node.2 = true) :
    list.findFrom node.1 pred = some node.1 := by
  obtain ⟨before, _, split⟩ := append_of_mem inside
  have skipped : ∀ earlier ∈ before, (earlier.1 != node.1) = true := by
    intro earlier member
    have nodup := list.nodup
    rw [split, map_append, map_cons] at nodup
    rw [bne_iff_ne]
    exact (nodup_append.mp nodup).2.2 _ (mem_map_of_mem member) _ mem_cons_self
  rw [findFrom, split, dropWhile_append_of_pos skipped]
  simp [holds]

end Values

end NodeList

end ImcGem5.Lib
