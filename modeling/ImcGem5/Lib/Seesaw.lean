import Mathlib.Algebra.Ring.Parity
import Mathlib.Data.List.Nodup
import Mathlib.Data.List.Perm.Subperm
import Mathlib.Logic.Function.Iterate
import Mathlib.Tactic.Common

/-! Trees of arrows. Every node of a full binary tree points to one of its halves, and
whoever follows the arrows from the root picks a leaf. When each leaf that was picked makes
the nodes above it point away from itself, all leaves take turns. -/

namespace ImcGem5.Lib

inductive Seesaw : Nat → Type
  | leaf : Seesaw 0
  | node {n : Nat} (right : Bool) (left' right' : Seesaw n) : Seesaw (n + 1)

namespace Seesaw

def pick : {n : Nat} → Seesaw n → Nat
  | _, .leaf => 0
  | n + 1, .node right left' right' => if right then 2 ^ n + right'.pick else left'.pick

/-- The nodes above a leaf point away from it, or else to it. -/
def turn (away : Bool) : {n : Nat} → Seesaw n → Nat → Seesaw n
  | _, .leaf, _ => .leaf
  | n + 1, .node _ left' right', place =>
    if place < 2 ^ n then .node away (left'.turn away place) right'
    else .node (!away) left' (right'.turn away (place - 2 ^ n))

def advance {n : Nat} (tree : Seesaw n) : Seesaw n := tree.turn true tree.pick

def visit {n : Nat} (tree : Seesaw n) (time : Nat) : Nat := (advance^[time] tree).pick

variable {n : Nat}

theorem pick_lt (tree : Seesaw n) : tree.pick < 2 ^ n := by
  induction tree with
  | leaf => exact Nat.one_pos
  | @node n right left' right' ihLeft ihRight =>
    rw [pick, Nat.pow_succ]
    split <;> omega

theorem pick_turn_towards {place : Nat} (tree : Seesaw n) (inside : place < 2 ^ n) : (tree.turn false place).pick = place := by
  induction tree generalizing place with
  | leaf =>
    exact (Nat.lt_one_iff.mp inside).symm
  | @node n right left' right' ihLeft ihRight =>
    rw [turn]
    split
    next early => exact ihLeft early
    next late =>
      have below : place - 2 ^ n < 2 ^ n := by omega
      rw [pick, Bool.not_false, if_pos rfl, ihRight below]
      omega

theorem pick_turn_away (tree : Seesaw (n + 1)) (place : Nat) : (tree.turn true place).pick ≠ place := by
  cases tree with
  | node _ left' =>
    rw [turn]
    split
    next early =>
      rw [pick, if_pos rfl]
      omega
    next late =>
      have less := pick_lt left'
      rw [pick, Bool.not_true, if_neg Bool.false_ne_true]
      omega

section Rotation
variable {n : Nat} {right : Bool} {left' right' : Seesaw n}

theorem advance_node : advance (.node right left' right') =
    if right then .node false left' right'.advance else .node true left'.advance right' := by
  unfold advance
  rw [pick, turn]
  cases right with
  | true => simp
  | false => simp [pick_lt left']

theorem advance_twice (time : Nat) : advance^[2 * time] (.node right left' right') =
    .node right (advance^[time] left') (advance^[time] right') := by
  induction time generalizing left' right' with
  | zero => rfl
  | succ _ ih =>
    rw [Nat.mul_succ, Function.iterate_add_apply]
    have two : advance^[2] (.node right left' right') = .node right left'.advance right'.advance := by
      show advance (advance _) = _
      cases right <;> simp [advance_node]
    rw [two, ih, Function.iterate_succ_apply, Function.iterate_succ_apply]

theorem visit_even (time : Nat) : visit (.node right left' right') (2 * time) =
    if right then 2 ^ n + right'.visit time else left'.visit time := by
  rw [visit, advance_twice, pick]
  rfl

theorem visit_odd (time : Nat) : visit (.node right left' right') (2 * time + 1) =
    if right then left'.visit time else 2 ^ n + right'.visit time := by
  rw [visit, Function.iterate_succ_apply', advance_twice, advance_node]
  cases right <;> simp [pick, visit]

end Rotation

section

variable (tree : Seesaw n)
include tree

theorem visit_lt (time : Nat) : tree.visit time < 2 ^ n := pick_lt _

theorem visit_add (time : Nat) : tree.visit (time + 2 ^ n) = tree.visit time := by
  induction tree generalizing time with
  | leaf =>
    have one := visit_lt (.leaf : Seesaw 0) (time + 2 ^ 0)
    have other := visit_lt (.leaf : Seesaw 0) time
    exact (Nat.lt_one_iff.mp one).trans (Nat.lt_one_iff.mp other).symm
  | @node n right left' right' ihLeft ihRight =>
    obtain ⟨half, rfl | rfl⟩ := Nat.even_or_odd' time
    · rw [show 2 * half + 2 ^ (n + 1) = 2 * (half + 2 ^ n) by rw [Nat.pow_succ]; omega, visit_even, visit_even, ihLeft, ihRight]
    · rw [show 2 * half + 1 + 2 ^ (n + 1) = 2 * (half + 2 ^ n) + 1 by rw [Nat.pow_succ]; omega, visit_odd, visit_odd, ihLeft,
        ihRight]

theorem visit_inj {one other : Nat} (inside : one < 2 ^ n) (inside' : other < 2 ^ n)
    (same : tree.visit one = tree.visit other) : one = other := by
  induction tree generalizing one other with
  | leaf =>
    omega
  | @node n right left' right' ihLeft ihRight =>
    obtain ⟨half, rfl | rfl⟩ := Nat.even_or_odd' one <;> obtain ⟨half', rfl | rfl⟩ := Nat.even_or_odd' other
    · rw [visit_even, visit_even] at same
      congr 1
      cases right with
      | true => exact ihRight (by omega) (by omega) (Nat.add_left_cancel same)
      | false => exact ihLeft (by omega) (by omega) same
    · rw [visit_even, visit_odd] at same
      have less := visit_lt left' half
      have less' := visit_lt left' half'
      cases right <;> simp at same <;> omega
    · rw [visit_odd, visit_even] at same
      have less := visit_lt left' half
      have less' := visit_lt left' half'
      cases right <;> simp at same <;> omega
    · rw [visit_odd, visit_odd] at same
      congr 2
      cases right with
      | true => exact ihLeft (by omega) (by omega) same
      | false => exact ihRight (by omega) (by omega) (Nat.add_left_cancel same)

theorem visit_perm : ((List.range (2 ^ n)).map tree.visit).Perm (List.range (2 ^ n)) := by
  have distinct : ((List.range (2 ^ n)).map tree.visit).Nodup := by
    apply List.Nodup.map_on _ List.nodup_range
    intro one member other member' same
    exact visit_inj tree (List.mem_range.mp member) (List.mem_range.mp member') same
  have inside : (List.range (2 ^ n)).map tree.visit ⊆ List.range (2 ^ n) := by
    intro place member
    obtain ⟨time, _, rfl⟩ := List.mem_map.mp member
    exact List.mem_range.mpr (visit_lt tree time)
  exact (List.subperm_of_subset distinct inside).perm_of_length_le (by simp)

theorem visit_mod (time : Nat) : tree.visit time = tree.visit (time % 2 ^ n) := by
  conv_lhs => rw [← Nat.mod_add_div time (2 ^ n)]
  generalize time % 2 ^ n = rest
  induction time / 2 ^ n with
  | zero => rfl
  | succ _ ih => rw [Nat.mul_succ, ← Nat.add_assoc, visit_add, ih]

end

end Seesaw

end ImcGem5.Lib
