import ImcGem5.Lib.Seesaw
import ImcGem5.Mem.TreePlru
import Mathlib.Data.List.GetD
import Mathlib.Data.Nat.Log
import Mathlib.Tactic.Ring

/-! TreePLRU takes the leaves in turns. The array of bits is a tree of arrows: what climb
stores on the way to the root turns the arrows above a leaf, and descend follows them. -/

namespace ImcGem5.Mem.Proofs.TreePlru
open Lib Mem.TreePlru List

section Shape
variable {tree tree' : PLRUTree} {n height index place : Nat}

def shape (tree : PLRUTree) : (height : Nat) → Nat → Seesaw height
  | 0, _ => .leaf
  | height + 1, index =>
    .node (tree.getD index false) (shape tree height (leftSubtreeIndex index)) (shape tree height (rightSubtreeIndex index))

theorem left_span (index height : Nat) : (leftSubtreeIndex index + 1) * 2 ^ height = (index + 1) * 2 ^ (height + 1) := by
  rw [leftSubtreeIndex, Nat.pow_succ']
  ring

theorem right_span (index height : Nat) : (rightSubtreeIndex index + 1) * 2 ^ height = (index + 1) * 2 ^ (height + 1) + 2 ^ height := by
  rw [rightSubtreeIndex, Nat.pow_succ']
  ring

theorem shape_congr (same : ∀ depth < height, ∀ place < 2 ^ depth, ∀ node, node + 1 = (index + 1) * 2 ^ depth + place →
    tree'.getD node false = tree.getD node false) : shape tree' height index = shape tree height index := by
  induction height generalizing index with
  | zero => rfl
  | succ height ih =>
    have root : tree'.getD index false = tree.getD index false := by
      apply same 0 (Nat.succ_pos _) 0 (Nat.two_pow_pos 0)
      omega
    have left' : shape tree' height (leftSubtreeIndex index) = shape tree height (leftSubtreeIndex index) := by
      apply ih
      intro depth less place inside node here
      rw [left_span] at here
      exact same (depth + 1) (by omega) place (by rw [Nat.pow_succ]; omega) node here
    have right' : shape tree' height (rightSubtreeIndex index) = shape tree height (rightSubtreeIndex index) := by
      apply ih
      intro depth less place inside node here
      rw [right_span, Nat.add_assoc] at here
      exact same (depth + 1) (by omega) (2 ^ depth + place) (by rw [Nat.pow_succ]; omega) node here
    rw [shape, shape, root, left', right']

theorem at'_ok (inside : index < tree.length) : at' tree index = .ok (tree.getD index false) := by
  rw [at', getElem?_eq_getElem inside, getD_eq_getElem _ _ inside]

theorem descend_ok (index : Nat) (size : tree.length + 1 = 2 ^ (n + height)) (least : 2 ^ n ≤ index + 1) (most : index + 1 < 2 ^ (n + 1))
    {turns : Nat} (enough : height < turns) : ∃ leaf, descend turns tree index = .ok leaf ∧
      leaf + 1 = (index + 1) * 2 ^ height + (shape tree height index).pick := by
  induction height generalizing n index turns with
  | zero =>
    obtain ⟨turns, rfl⟩ := Nat.exists_eq_add_one_of_ne_zero (Nat.ne_of_gt enough)
    refine ⟨index, ?_, by simp [shape, Seesaw.pick]⟩
    have outside : tree.length + 1 = 2 ^ n := size
    rw [descend, if_neg (by omega)]
  | succ height ih =>
    obtain ⟨turns, rfl⟩ := Nat.exists_eq_add_one_of_ne_zero (Nat.ne_of_gt (Nat.zero_lt_of_lt enough))
    have inside : index < tree.length := by
      have le : 2 ^ (n + 1) ≤ 2 ^ (n + (height + 1)) := Nat.pow_le_pow_right Nat.two_pos (by omega)
      omega
    have size' : tree.length + 1 = 2 ^ (n + 1 + height) := by rw [size, Nat.add_right_comm, Nat.add_assoc]
    rw [descend, if_pos inside, at'_ok inside, ok_bind, shape, Seesaw.pick]
    cases tree.getD index false with
    | true =>
      have bounds : 2 ^ (n + 1) ≤ rightSubtreeIndex index + 1 ∧ rightSubtreeIndex index + 1 < 2 ^ (n + 1 + 1) := by
        rw [rightSubtreeIndex, Nat.pow_succ, Nat.pow_succ]
        omega
      obtain ⟨leaf, ran, is⟩ := ih _ size' bounds.1 bounds.2 (show height < turns by omega)
      rw [right_span, Nat.add_assoc] at is
      exact ⟨leaf, ran, is⟩
    | false =>
      have bounds : 2 ^ (n + 1) ≤ leftSubtreeIndex index + 1 ∧ leftSubtreeIndex index + 1 < 2 ^ (n + 1 + 1) := by
        rw [leftSubtreeIndex, Nat.pow_succ, Nat.pow_succ]
        omega
      obtain ⟨leaf, ran, is⟩ := ih _ size' bounds.1 bounds.2 (show height < turns by omega)
      rw [left_span] at is
      exact ⟨leaf, ran, is⟩

end Shape

section Climb
variable {tree tree' : PLRUTree} {store : Bool → Bool} {n height depth index leaf place : Nat}

/-- What climb did, which came to so many nodes. They are the quotients of the place from
which it started, with the root in place one. -/
structure Climbed (store : Bool → Bool) (tree tree' : PLRUTree) (index depth : Nat) : Prop where
  length : tree'.length = tree.length
  above : ∀ level < depth, ∀ node, node + 1 = (index + 1) / 2 ^ (level + 1) →
    tree'.getD node false = store ((index + 1) / 2 ^ level % 2 == 1)
  others : ∀ node, (∀ level < depth, node + 1 ≠ (index + 1) / 2 ^ (level + 1)) → tree'.getD node false = tree.getD node false

theorem getD_set {index other : Nat} {bit : Bool} (inside : index < tree.length) :
    (tree.set index bit).getD other false = if other = index then bit else tree.getD other false := by
  rw [getD_eq_getElem?_getD, getD_eq_getElem?_getD, getElem?_set]
  by_cases same : index = other
  · subst same
    rw [if_pos rfl, if_pos rfl, if_pos inside, Option.getD_some]
  · rw [if_neg same, if_neg (Ne.symm same)]

theorem climb_ok (store : Bool → Bool) (size : 2 ^ depth ≤ tree.length + 1) (least : 2 ^ depth ≤ index + 1) (most : index + 1 < 2 ^ (depth + 1))
    (some : 0 < depth) {turns : Nat} (enough : index < turns) :
    ∃ tree', climb store turns tree index = .ok tree' ∧ Climbed store tree tree' index depth := by
  induction depth generalizing tree index turns with
  | zero => omega
  | succ depth ih =>
    obtain ⟨turns, rfl⟩ := Nat.exists_eq_add_one_of_ne_zero (Nat.ne_of_gt (Nat.zero_lt_of_lt enough))
    have up : (index - 1) / 2 + 1 = (index + 1) / 2 := by omega
    have inside : (index - 1) / 2 < tree.length := by omega
    have side : isRightSubtree index = ((index + 1) / 2 ^ 0 % 2 == 1) := by
      rw [isRightSubtree, Nat.pow_zero, Nat.div_one, Bool.eq_iff_iff, beq_iff_eq, beq_iff_eq]
      omega
    have halves : ∀ level, ((index - 1) / 2 + 1) / 2 ^ level = (index + 1) / 2 ^ (level + 1) := by
      intro level
      rw [up, Nat.div_div_eq_div_mul, Nat.pow_succ']
    rw [climb, parentIndex, if_neg (by omega), ok_bind, at'_ok inside, ok_bind]
    split
    next more =>
      have deeper : 0 < depth := by
        rw [Nat.pos_iff_ne_zero]
        rintro rfl
        omega
      have size' : 2 ^ depth ≤ (tree.set ((index - 1) / 2) (store (isRightSubtree index))).length + 1 := by
        rw [length_set]
        omega
      obtain ⟨tree', ran, climbed⟩ := ih size' (by omega) (by rw [Nat.pow_succ]; omega) deeper (show (index - 1) / 2 < turns by omega)
      refine ⟨tree', ran, ?_, fun level less node here => ?_, fun node apart => ?_⟩
      · rw [climbed.length, length_set]
      · cases level with
        | zero =>
          have is : node = (index - 1) / 2 := by omega
          rw [climbed.others, getD_set inside, if_pos is, side]
          intro level less same
          -- a node is not above itself
          have lower : ((index - 1) / 2 + 1) / 2 ^ (level + 1) < (index - 1) / 2 + 1 :=
            Nat.div_lt_self (Nat.succ_pos _) (Nat.one_lt_two_pow (Nat.succ_ne_zero _))
          omega
        | succ level =>
          rw [← halves] at here
          rw [climbed.above level (by omega) node here, halves]
      · rw [climbed.others, getD_set inside, if_neg]
        · rintro rfl
          exact apart 0 (Nat.succ_pos _) up
        · intro level less
          rw [halves]
          exact apart (level + 1) (by omega)
    next root =>
      have lone : depth = 0 := by
        by_contra deeper
        have two : 2 ≤ 2 ^ depth := Nat.le_self_pow deeper 2
        omega
      subst lone
      refine ⟨_, rfl, length_set, fun level less node here => ?_, fun node apart => ?_⟩
      · obtain rfl : level = 0 := by omega
        rw [getD_set inside, if_pos (by omega), side]
      · rw [getD_set inside, if_neg]
        rintro rfl
        exact apart 0 (Nat.succ_pos _) up

theorem Climbed.beside (climbed : Climbed store tree tree' index (n + height))
    (least : 2 ^ (n + height) ≤ index + 1) (most : index + 1 < 2 ^ (n + height + 1)) {sibling : Nat}
    (least' : 2 ^ n ≤ sibling + 1) (most' : sibling + 1 < 2 ^ (n + 1)) (apart : (index + 1) / 2 ^ height ≠ sibling + 1) :
    shape tree' height sibling = shape tree height sibling := by
  apply shape_congr
  intro below less place inside node here
  apply climbed.others
  intro level above same
  -- both are as deep as they are large, so they are the same node only at the same level
  have deep : Nat.log 2 (node + 1) = n + below := by
    apply Nat.log_eq_of_pow_le_of_lt_pow
    · calc 2 ^ (n + below) = 2 ^ n * 2 ^ below := Nat.pow_add 2 n below
        _ ≤ (sibling + 1) * 2 ^ below := Nat.mul_le_mul_right _ least'
        _ ≤ node + 1 := by omega
    · calc node + 1 < (sibling + 1 + 1) * 2 ^ below := by rw [Nat.succ_mul (sibling + 1)]; omega
        _ ≤ 2 ^ (n + 1) * 2 ^ below := Nat.mul_le_mul_right _ most'
        _ = 2 ^ (n + below + 1) := by rw [← Nat.pow_add, Nat.add_right_comm]
  have deep' : Nat.log 2 (node + 1) = n + height - (level + 1) := by
    apply Nat.log_eq_of_pow_le_of_lt_pow
    · rw [same, Nat.le_div_iff_mul_le (Nat.two_pow_pos _), ← Nat.pow_add, Nat.sub_add_cancel above]
      exact least
    · rw [same, Nat.div_lt_iff_lt_mul (Nat.two_pow_pos _), ← Nat.pow_add,
        show n + height - (level + 1) + 1 + (level + 1) = n + height + 1 by omega]
      exact most
  have levels : height = level + 1 + below := by omega
  apply apart
  rw [levels, Nat.pow_add, ← Nat.div_div_eq_div_mul, ← same, here, Nat.mul_comm, Nat.mul_add_div (Nat.two_pow_pos _),
    Nat.div_eq_of_lt inside, Nat.add_zero]

theorem Climbed.turned {away : Bool} (climbed : Climbed (fun right => right != away) tree tree' leaf (n + height))
    (least : 2 ^ n ≤ index + 1) (most : index + 1 < 2 ^ (n + 1))
    (is : leaf + 1 = (index + 1) * 2 ^ height + place) (inside : place < 2 ^ height) :
    shape tree' height index = (shape tree height index).turn away place := by
  induction height generalizing n index place with
  | zero => rfl
  | succ height ih =>
    have power : 2 ^ (height + 1) = 2 ^ height * 2 := Nat.pow_succ 2 height
    have positive : 0 < 2 ^ height := Nat.two_pow_pos height
    have least' : 2 ^ (n + (height + 1)) ≤ leaf + 1 := by
      rw [is, Nat.pow_add]
      exact Nat.le_add_right_of_le (Nat.mul_le_mul_right _ least)
    have most' : leaf + 1 < 2 ^ (n + (height + 1) + 1) := by
      calc leaf + 1 < (index + 1 + 1) * 2 ^ (height + 1) := by rw [Nat.succ_mul (index + 1)]; omega
        _ ≤ 2 ^ (n + 1) * 2 ^ (height + 1) := Nat.mul_le_mul_right _ most
        _ = 2 ^ (n + (height + 1) + 1) := by rw [← Nat.pow_add, Nat.add_right_comm]
    have half : (leaf + 1) / 2 ^ height = 2 * (index + 1) + place / 2 ^ height := by
      rw [is, power, show (index + 1) * (2 ^ height * 2) + place = 2 ^ height * (2 * (index + 1)) + place by ring,
        Nat.mul_add_div positive]
    have root : tree'.getD index false = ((place / 2 ^ height % 2 == 1) != away) := by
      rw [climbed.above height (by omega) index, half, Nat.mul_add_mod]
      rw [is, Nat.mul_comm, Nat.mul_add_div (Nat.two_pow_pos _), Nat.div_eq_of_lt inside, Nat.add_zero]
    have assoc : n + 1 + height = n + (height + 1) := by omega
    rw [← assoc] at climbed least' most'
    have left' : 2 ^ (n + 1) ≤ leftSubtreeIndex index + 1 ∧ leftSubtreeIndex index + 1 < 2 ^ (n + 1 + 1) := by
      rw [leftSubtreeIndex, Nat.pow_succ _ (n + 1), Nat.pow_succ] at *
      omega
    have right' : 2 ^ (n + 1) ≤ rightSubtreeIndex index + 1 ∧ rightSubtreeIndex index + 1 < 2 ^ (n + 1 + 1) := by
      rw [rightSubtreeIndex, Nat.pow_succ _ (n + 1), Nat.pow_succ] at *
      omega
    rw [shape, shape, Seesaw.turn, root]
    split
    next early =>
      rw [Nat.div_eq_of_lt early] at half ⊢
      congr 1
      · cases away <;> rfl
      · exact ih climbed left'.1 left'.2 (by rw [left_span]; exact is) early
      · apply climbed.beside least' most' right'.1 right'.2
        rw [half, rightSubtreeIndex]
        omega
    next late =>
      have one : place / 2 ^ height = 1 := by
        apply Nat.div_eq_of_lt_le
        · omega
        · omega
      rw [one] at half ⊢
      congr 1
      · cases away <;> rfl
      · apply climbed.beside least' most' left'.1 left'.2
        rw [half, leftSubtreeIndex]
        omega
      · exact ih climbed right'.1 right'.2 (by rw [right_span]; omega) (by omega)

end Climb

section Policy
variable {n t place : Nat} {trees : Heap PLRUTree} {tree : PLRUTree}

def entry (n t place : Nat) : TreePLRUReplData := ⟨place + 2 ^ n - 1, t⟩

def entries (n t : Nat) : List TreePLRUReplData := (range (2 ^ n)).map (entry n t)

theorem entry_inj {other : Nat} (same : entry n t place = entry n t other) : place = other := by
  have index := congrArg TreePLRUReplData.index same
  have positive := Nat.two_pow_pos n
  simp only [entry] at index
  omega

structure Tree (trees : Heap PLRUTree) (n t : Nat) (tree : PLRUTree) : Prop where
  held : trees.cell t = some tree
  size : tree.length + 1 = 2 ^ n

theorem climb_entry {away : Bool} {store : Bool → Bool} (stores : store = fun right => right != away)
    (is : Tree trees n t tree) (several : 1 ≤ n) (inside : place < 2 ^ n) :
    ∃ tree', climb store ((entry n t place).index + 1) tree (entry n t place).index = .ok tree' ∧
      Tree (trees.write t tree') n t tree' ∧ shape tree' n 0 = (shape tree n 0).turn away place := by
  subst stores
  have leaf : (entry n t place).index + 1 = (0 + 1) * 2 ^ n + place := by
    simp only [entry]
    omega
  have least : 2 ^ n ≤ (entry n t place).index + 1 := by omega
  have most : (entry n t place).index + 1 < 2 ^ (n + 1) := by
    rw [Nat.pow_succ]
    omega
  obtain ⟨tree', ran, climbed⟩ := climb_ok (fun right => right != away) (Nat.le_of_eq is.size.symm) least most several
    (Nat.lt_succ_self _)
  refine ⟨tree', ran, ⟨by rw [Heap.write_cell, if_pos rfl], climbed.length.symm ▸ is.size⟩, ?_⟩
  have climbed' : Climbed (fun right => right != away) tree tree' (entry n t place).index (0 + n) := by
    rw [Nat.zero_add]
    exact climbed
  exact climbed'.turned (by decide) (by decide) leaf inside

section

variable (is : Tree trees n t tree)
include is

theorem touch_ok (several : 1 ≤ n) (inside : place < 2 ^ n) :
    ∃ after tree', touch trees (entry n t place) = .ok after ∧ Tree after n t tree' ∧
      shape tree' n 0 = (shape tree n 0).turn true place := by
  obtain ⟨tree', ran, is', turned⟩ := climb_entry (funext fun right => (Bool.bne_true right).symm) is several inside
  refine ⟨_, tree', ?_, is', turned⟩
  rw [touch, show (entry n t place).tree = t from rfl, Heap.read_of_cell is.held, ok_bind, ran, ok_bind]
  rfl

theorem invalidate_ok (several : 1 ≤ n) (inside : place < 2 ^ n) :
    ∃ after tree', invalidate trees (entry n t place) = .ok after ∧ Tree after n t tree' ∧
      shape tree' n 0 = (shape tree n 0).turn false place := by
  obtain ⟨tree', ran, is', turned⟩ := climb_entry (funext fun right => (Bool.bne_false right).symm) is several inside
  refine ⟨_, tree', ?_, is', turned⟩
  rw [invalidate, show (entry n t place).tree = t from rfl, Heap.read_of_cell is.held, ok_bind, ran, ok_bind]
  rfl

theorem getVictim_ok : getVictim (2 ^ n) trees (entries n t) = .ok (entry n t (shape tree n 0).pick) := by
  have positive := Nat.two_pow_pos n
  have size : tree.length + 1 = 2 ^ (0 + n) := by rw [is.size, Nat.zero_add]
  have turns : n < tree.length + 1 := by
    rw [is.size]
    exact Nat.lt_two_pow_self
  obtain ⟨leaf, ran, _⟩ := descend_ok 0 size (by decide) (by decide) turns
  have here : (entries n t)[leaf - (2 ^ n - 1)]? = some (entry n t (shape tree n 0).pick) := by
    rw [entries, getElem?_map, show leaf - (2 ^ n - 1) = (shape tree n 0).pick by omega, getElem?_range (Seesaw.pick_lt _)]
    rfl
  obtain ⟨rest, front⟩ : ∃ rest, entries n t = entry n t 0 :: rest := by
    obtain ⟨_, same⟩ := Nat.exists_eq_add_one_of_ne_zero (Nat.ne_of_gt positive)
    rw [entries, same, range_succ_eq_map]
    exact ⟨_, rfl⟩
  rw [front] at here ⊢
  rw [getVictim, show (entry n t 0).tree = t from rfl, Heap.read_of_cell is.held, ok_bind, ran, ok_bind, here]
  rfl

theorem evictions_ok (several : 1 ≤ n) (rounds : Nat) :
    ∃ after, evictions (2 ^ n) (entries n t) rounds trees =
      .ok ((range rounds).map fun time => entry n t ((shape tree n 0).visit time), after) := by
  induction rounds generalizing trees tree with
  | zero => exact ⟨trees, rfl⟩
  | succ rounds ih =>
    obtain ⟨_, _, touched, is', turned⟩ := touch_ok is several (Seesaw.pick_lt (shape tree n 0))
    obtain ⟨after, ran⟩ := ih is'
    refine ⟨after, ?_⟩
    rw [evictions, getVictim_ok is, ok_bind, touched, ok_bind, ran, ok_bind, range_succ_eq_map, map_cons, map_map, turned]
    rfl

end

theorem instantiateEntries_rest {policy : TreePLRU} (trees : Heap PLRUTree) {made count : Nat} (leaves : policy.numLeaves = 2 ^ n)
    (counted : policy.count % 2 ^ n = made) (some : 0 < made) (room : made + count ≤ 2 ^ n) :
    (policy.instantiateEntries count trees).2 =
      (trees, (range' made count).map (entry n policy.treeInstance)) := by
  induction count generalizing policy made with
  | zero => rfl
  | succ count ih =>
    have first : policy.instantiateEntry trees =
        ({ policy with count := policy.count + 1 }, trees, entry n policy.treeInstance made) := by
      rw [TreePLRU.instantiateEntry, leaves, counted, if_neg (Nat.ne_of_gt some)]
      rfl
    rw [TreePLRU.instantiateEntries, first]
    cases count with
    | zero => rfl
    | succ count =>
      have next : (policy.count + 1) % 2 ^ n = made + 1 := by
        rw [Nat.add_mod, counted, Nat.mod_eq_of_lt (b := 2 ^ n) (a := 1) (by omega)]
        exact Nat.mod_eq_of_lt (by omega)
      rw [range'_succ, map_cons]
      have leaves' : { policy with count := policy.count + 1 }.numLeaves = 2 ^ n := leaves
      have rest := ih leaves' next (Nat.succ_pos _) (by omega)
      rw [Prod.ext_iff] at rest
      exact Prod.ext rest.1 (congrArg (List.cons _) rest.2)

/-- So many entries as there are leaves, made one after another, are those of one tree. This
is where the trees and entries that the policy works on come from. -/
theorem instantiateEntries_ok {policy : TreePLRU} {trees : Heap PLRUTree} (leaves : policy.numLeaves = 2 ^ n)
    (between : policy.count % 2 ^ n = 0) : ∃ after, (policy.instantiateEntries (2 ^ n) trees).2 = (after, entries n trees.next) ∧
      Tree after n trees.next (replicate (2 ^ n - 1) false) := by
  have positive := Nat.two_pow_pos n
  obtain ⟨more, same⟩ := Nat.exists_eq_add_one_of_ne_zero (Nat.ne_of_gt positive)
  have first : policy.instantiateEntry trees = ({ policy with
          count := policy.count + 1
          treeInstance := trees.next }, (trees.alloc (replicate (2 ^ n - 1) false)).1, entry n trees.next 0) := by
    rw [TreePLRU.instantiateEntry, leaves, between, if_pos rfl]
    rfl
  refine ⟨(trees.alloc (replicate (2 ^ n - 1) false)).1, ?_, ?_, ?_⟩
  · rw [entries, range_eq_range']
    conv_lhs => rw [same]
    rw [TreePLRU.instantiateEntries, first, same, range'_succ, map_cons]
    cases more with
    | zero => rfl
    | succ more =>
      have next : (policy.count + 1) % 2 ^ n = 1 := by
        rw [Nat.add_mod, between, Nat.mod_eq_of_lt (b := 2 ^ n) (a := 1) (by omega)]
        exact Nat.mod_eq_of_lt (by omega)
      have leaves' : { policy with count := policy.count + 1, treeInstance := trees.next }.numLeaves = 2 ^ n := leaves
      have rest := instantiateEntries_rest (trees.alloc (replicate (2 ^ n - 1) false)).1 leaves' next Nat.one_pos
        (show 1 + (more + 1) ≤ 2 ^ n by omega)
      rw [← same]
      rw [Prod.ext_iff] at rest
      exact Prod.ext rest.1 (congrArg (List.cons _) rest.2)
  · rw [Heap.alloc_cell, if_pos rfl]
  · rw [length_replicate]
    omega

/-- Every leaf is the victim once in each round, always in the same order; what was touched
is not the next victim, and what was invalidated is; and no index leads out of the tree. -/
theorem takes_turns (several : 1 ≤ n) (is : Tree trees n t tree) :
    (∃ order : List Nat, order.Perm (List.range (2 ^ n)) ∧ ∀ rounds, ∃ after, evictions (2 ^ n) (entries n t) rounds trees =
      .ok ((List.range rounds).map fun time => entry n t (order.getD (time % 2 ^ n) 0), after)) ∧
    (∀ place < 2 ^ n, ∃ after victim, touch trees (entry n t place) = .ok after ∧
      getVictim (2 ^ n) after (entries n t) = .ok victim ∧ victim ≠ entry n t place) ∧
    (∀ place < 2 ^ n, ∃ after, invalidate trees (entry n t place) = .ok after ∧
      getVictim (2 ^ n) after (entries n t) = .ok (entry n t place)) ∧
    (∀ index, 0 < index → index < 2 ^ (n + 1) - 1 → ∃ parent, parentIndex index = .ok parent ∧ parent < tree.length) ∧
    ∀ index < tree.length, leftSubtreeIndex index < 2 ^ (n + 1) - 1 ∧ rightSubtreeIndex index < 2 ^ (n + 1) - 1 := by
  have size := is.size
  have positive := Nat.two_pow_pos n
  rw [Nat.pow_succ]
  refine ⟨⟨(range (2 ^ n)).map (shape tree n 0).visit, Seesaw.visit_perm _, fun rounds => ?_⟩, fun place inside => ?_,
    fun place inside => ?_, fun index below inside => ?_, fun index inside => ?_⟩
  · obtain ⟨after, ran⟩ := evictions_ok is several rounds
    refine ⟨after, ?_⟩
    rw [ran]
    congr 2
    apply map_congr_left
    intro time _
    have within := Nat.mod_lt time positive
    rw [getD_eq_getElem _ _ (by simpa using within), getElem_map, getElem_range, Seesaw.visit_mod]
  · obtain ⟨after, tree', touched, is', turned⟩ := touch_ok is several inside
    refine ⟨after, _, touched, getVictim_ok is', fun same => ?_⟩
    have picked := entry_inj same
    rw [turned] at picked
    obtain ⟨_, rfl⟩ := Nat.exists_eq_add_one_of_ne_zero (Nat.ne_of_gt several)
    exact Seesaw.pick_turn_away _ _ picked
  · obtain ⟨after, tree', invalidated, is', turned⟩ := invalidate_ok is several inside
    refine ⟨after, invalidated, ?_⟩
    rw [getVictim_ok is', turned, Seesaw.pick_turn_towards _ inside]
  · exact ⟨(index - 1) / 2, if_neg (Nat.ne_of_gt below), by omega⟩
  · rw [leftSubtreeIndex, rightSubtreeIndex]
    omega

theorem takes_turns_four : ∃ order : List Nat, order.Perm (List.range 4) ∧ ∀ rounds, ∃ after,
    evictions 4 (entries 2 0) rounds ⟨fun address => if address = 0 then some [true, false, true] else none, 1⟩ =
      .ok ((List.range rounds).map fun time => entry 2 0 (order.getD (time % 4) 0), after) :=
  (takes_turns (by decide) (⟨rfl, rfl⟩ : Tree _ 2 0 [true, false, true])).1

end Policy

end ImcGem5.Mem.Proofs.TreePlru
