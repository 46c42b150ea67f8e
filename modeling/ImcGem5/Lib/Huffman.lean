import ImcGem5.Lib.PrefixCodes

/-! Huffman's algorithm. Whichever two of the lightest trees of a forest are merged next, the
tree that is left in the end costs no more than any prefix code of its leaves. -/

namespace ImcGem5.Lib
open List Multiset
open Prod (fst snd)

universe u

/-- A binary tree with items of some weight at its leaves. -/
inductive CodeTree (α : Type u) where
  | leaf (item : α) (weight : ℕ)
  | node (left right : CodeTree α)

namespace CodeTree

variable {α : Type u} {tree : CodeTree α} {forest : Multiset (CodeTree α)} {light : ℕ} {items : Multiset (ℕ × ℕ)}

def weight : CodeTree α → ℕ
  | .leaf _ weight => weight
  | .node left right => left.weight + right.weight

def depth : CodeTree α → ℕ
  | .leaf _ _ => 0
  | .node left right => max left.depth right.depth + 1

def cost : CodeTree α → ℕ
  | .leaf _ _ => 0
  | .node left right => left.cost + right.cost + (left.weight + right.weight)

/-- A leaf with the turns that lead to it, where true is right. -/
structure Leaf (α : Type u) where
  path : List Bool
  item : α
  weight : ℕ

def Leaf.under (right : Bool) (leaf : Leaf α) : Leaf α := { leaf with path := right :: leaf.path }

/-- The leaves from the right to the left. -/
def leaves : CodeTree α → List (Leaf α)
  | .leaf item weight => [⟨[], item, weight⟩]
  | .node left right => right.leaves.map (Leaf.under true) ++ left.leaves.map (Leaf.under false)

def entries (tree : CodeTree α) : Multiset (α × ℕ) := tree.leaves.map fun leaf => (leaf.item, leaf.weight)

theorem entries_node (left right : CodeTree α) : (node left right).entries = right.entries + left.entries := by
  rw [entries, entries, entries, leaves, map_append, List.map_map, List.map_map]
  rfl

theorem leaves_apart {first second : Leaf α} (here : first ∈ tree.leaves) (there : second ∈ tree.leaves)
    (before : first.path <+: second.path) : first = second := by
  induction tree generalizing first second with
  | leaf =>
    rw [List.mem_singleton.mp here, List.mem_singleton.mp there]
  | node _ _ ihLeft ihRight =>
    rw [leaves, mem_append, List.mem_map, List.mem_map] at here there
    rcases here with ⟨one, inside, rfl⟩ | ⟨one, inside, rfl⟩
    · rcases there with ⟨other, within, rfl⟩ | ⟨other, within, rfl⟩
      · rw [ihRight inside within (cons_prefix_cons.mp before).2]
      · exact absurd (cons_prefix_cons.mp before).1 Bool.noConfusion
    · rcases there with ⟨other, within, rfl⟩ | ⟨other, within, rfl⟩
      · exact absurd (cons_prefix_cons.mp before).1 Bool.noConfusion
      · rw [ihLeft inside within (cons_prefix_cons.mp before).2]

theorem path_length_le {leaf : Leaf α} (member : leaf ∈ tree.leaves) : leaf.path.length ≤ tree.depth := by
  induction tree generalizing leaf with
  | leaf =>
    rw [List.mem_singleton.mp member]
    exact Nat.le_refl _
  | node _ _ ihLeft ihRight =>
    rw [leaves, mem_append, List.mem_map, List.mem_map] at member
    rcases member with ⟨below, inside, rfl⟩ | ⟨below, inside, rfl⟩
    · have deep := ihRight inside
      simp only [Leaf.under, length_cons, depth]
      omega
    · have deep := ihLeft inside
      simp only [Leaf.under, length_cons, depth]
      omega

theorem sum_weight (tree : CodeTree α) : (tree.leaves.map Leaf.weight).sum = tree.weight := by
  induction tree with
  | leaf _ weight => simp [leaves, CodeTree.weight]
  | node _ _ ihLeft ihRight =>
    rw [leaves, map_append, List.map_map, List.map_map, sum_append, weight, ← ihLeft, ← ihRight, Nat.add_comm]
    rfl

theorem sum_under (right : Bool) (leaves : List (Leaf α)) :
    ((leaves.map (Leaf.under right)).map fun leaf => leaf.weight * leaf.path.length).sum =
      (leaves.map fun leaf => leaf.weight * leaf.path.length).sum + (leaves.map Leaf.weight).sum := by
  induction leaves with
  | nil => rfl
  | cons _ _ ih =>
    simp only [List.map_cons, List.sum_cons, ih, Leaf.under, length_cons]
    ring

theorem sum_path (tree : CodeTree α) : (tree.leaves.map fun leaf => leaf.weight * leaf.path.length).sum = tree.cost := by
  induction tree with
  | leaf => simp [leaves, cost]
  | node _ _ ihLeft ihRight =>
    rw [leaves, map_append, sum_append, sum_under, sum_under, ihLeft, ihRight, sum_weight, sum_weight, cost]
    ring

inductive Merges : Multiset (CodeTree α) → CodeTree α → Prop
  | done {tree : CodeTree α} : Merges {tree} tree
  | merge {first second tree : CodeTree α} {rest : Multiset (CodeTree α)} (lightest : ∀ other ∈ second ::ₘ rest, first.weight ≤ other.weight)
      (next : ∀ other ∈ rest, second.weight ≤ other.weight) (merges : Merges (node first second ::ₘ rest) tree) :
      Merges (first ::ₘ second ::ₘ rest) tree

theorem Merges.entries (merges : Merges forest tree) : tree.entries = (forest.map CodeTree.entries).sum := by
  induction merges with
  | done => rw [Multiset.map_singleton, Multiset.sum_singleton]
  | merge _ _ _ ih =>
    rw [ih, Multiset.map_cons, Multiset.sum_cons, Multiset.map_cons, Multiset.sum_cons, Multiset.map_cons, Multiset.sum_cons, entries_node]
    abel

theorem exchange (lightest : ∀ item ∈ items, light ≤ item.1) (length : ℕ) :
    ∃ (longest : ℕ) (others : Multiset (ℕ × ℕ)), others.map fst = items.map fst ∧ longest ::ₘ others.map snd = length ::ₘ items.map snd ∧
      (∀ item ∈ others, item.2 ≤ longest) ∧
      light * longest + (others.map fun item => item.1 * item.2).sum ≤ light * length + (items.map fun item => item.1 * item.2).sum := by
  induction items using Multiset.induction generalizing length with
  | empty => exact ⟨length, 0, rfl, rfl, fun _ none => absurd none (notMem_zero _), le_refl _⟩
  | cons item _ ih =>
    rw [Multiset.forall_mem_cons] at lightest
    obtain ⟨lighter, others⟩ := lightest
    -- The longer of the two lengths is passed on.
    obtain ⟨longest, rest, weights, lengths, longer, _⟩ := ih others (max length item.2)
    have most : max length item.2 ≤ longest := by
      have member : max length item.2 ∈ longest ::ₘ rest.map snd := by
        rw [lengths]
        exact Multiset.mem_cons_self _ _
      rcases Multiset.mem_cons.mp member with same | inside
      · exact same.le
      · obtain ⟨other, within, same⟩ := Multiset.mem_map.mp inside
        exact same ▸ longer other within
    refine ⟨longest, (item.1, min length item.2) ::ₘ rest, ?_, ?_, ?_, ?_⟩
    · rw [Multiset.map_cons, Multiset.map_cons, weights]
    · rw [Multiset.map_cons, Multiset.map_cons, cons_swap, lengths]
      rcases Nat.le_total length item.2 with less | less
      · rw [max_eq_right less, min_eq_left less]
      · rw [max_eq_left less, min_eq_right less, cons_swap]
    · rw [Multiset.forall_mem_cons]
      exact ⟨(min_le_max).trans most, longer⟩
    · rw [Multiset.map_cons, Multiset.sum_cons, Multiset.map_cons, Multiset.sum_cons]
      have swapped : light * max length item.2 + item.1 * min length item.2 ≤ light * length + item.1 * item.2 := by
        rcases Nat.le_total length item.2 with less | less
        · rw [max_eq_right less, min_eq_left less]
          obtain ⟨more, same⟩ := Nat.exists_eq_add_of_le less
          have grows := Nat.mul_le_mul_right more lighter
          rw [same, Nat.mul_add, Nat.mul_add]
          omega
        · rw [max_eq_left less, min_eq_right less]
      dsimp only
      omega

theorem exists_cons_of_map {weights : Multiset ℕ} (same : items.map fst = light ::ₘ weights) :
    ∃ (length : ℕ) (others : Multiset (ℕ × ℕ)), items = (light, length) ::ₘ others ∧ others.map fst = weights := by
  obtain ⟨⟨_, length⟩, member, rfl, others⟩ := (map_eq_cons _ _ _ _).mpr same
  exact ⟨length, items.erase _, (cons_erase member).symm, others⟩

theorem forall_weight (weights : items.map fst = forest.map weight) (lightest : ∀ tree ∈ forest, light ≤ tree.weight) :
    ∀ item ∈ items, light ≤ item.1 := by
  intro item member
  have here := Multiset.mem_map_of_mem fst member
  rw [weights] at here
  obtain ⟨tree, inside, same⟩ := Multiset.mem_map.mp here
  exact same ▸ lightest tree inside

theorem Merges.le_lengths (merges : Merges forest tree)
    (weights : items.map fst = forest.map weight) (kraft : Kraft (items.map snd)) :
    tree.cost ≤ (forest.map cost).sum + (items.map fun item => item.1 * item.2).sum := by
  induction merges generalizing items with
  | done =>
    rw [Multiset.map_singleton, Multiset.sum_singleton]
    exact Nat.le_add_right _ _
  | @merge first second tree rest lightest next _ ih =>
    rw [Multiset.map_cons] at weights
    obtain ⟨length, items, rfl, remaining⟩ := exists_cons_of_map weights
    -- The lightest tree gets the longest length, and the next one the longest of the others.
    obtain ⟨longest, others, sames, lengths, longer, cheaper⟩ := exchange (forall_weight remaining lightest) length
    rw [← sames, Multiset.map_cons] at remaining
    obtain ⟨middle, others, rfl, last⟩ := exists_cons_of_map remaining
    obtain ⟨second', others', sames', lengths', longer', cheaper'⟩ := exchange (forall_weight last next) middle
    rw [Multiset.map_cons, ← lengths, Multiset.map_cons, ← lengths'] at kraft
    have order : second' ≤ longest := by
      have member : second' ∈ middle ::ₘ others.map snd := by
        rw [← lengths']
        exact Multiset.mem_cons_self _ _
      have among : second' ∈ ((second.weight, middle) ::ₘ others).map snd := by rwa [Multiset.map_cons]
      obtain ⟨item, inside, same⟩ := Multiset.mem_map.mp among
      exact same ▸ longer item inside
    have short : ∀ length ∈ others'.map snd, length ≤ second' := by
      intro length member
      obtain ⟨item, inside, rfl⟩ := Multiset.mem_map.mp member
      exact longer' item inside
    obtain ⟨parent, rfl, _⟩ := kraft.siblings order short
    have weights' : ((first.weight + second.weight, parent) ::ₘ others').map fst = (node first second ::ₘ rest).map weight := by
      rw [Multiset.map_cons, Multiset.map_cons, sames', last]
      rfl
    have merged := ih weights' (by rwa [Multiset.map_cons])
    have further := Nat.mul_le_mul_left first.weight order
    simp only [Multiset.map_cons, Multiset.sum_cons, cost] at merged cheaper cheaper' ⊢
    rw [Nat.add_mul] at merged
    rw [Nat.mul_add] at further cheaper'
    omega

theorem Merges.optimal {samples : Multiset (α × ℕ)} (distinct : (samples.map fst).Nodup)
    (merges : Merges (samples.map fun sample => .leaf sample.1 sample.2) tree) {code : α → List Bool}
    (free : PrefixFree (samples.map fst) code) : tree.cost ≤ (samples.map fun sample => sample.2 * (code sample.1).length).sum := by
  have weights : (samples.map fun sample => (sample.2, (code sample.1).length)).map fst =
      (samples.map fun sample => leaf sample.1 sample.2).map weight := by
    simp only [Multiset.map_map, Function.comp_def, weight]
  have kraft := free.kraft distinct
  rw [Multiset.map_map] at kraft
  have lengths := merges.le_lengths weights (by rw [Multiset.map_map]; exact kraft)
  have nothing : ((samples.map fun sample => leaf sample.1 sample.2).map cost).sum = 0 := by
    simp [Multiset.map_map, Function.comp_def, cost]
  rw [nothing, Nat.zero_add, Multiset.map_map] at lengths
  exact lengths

end CodeTree

end ImcGem5.Lib
