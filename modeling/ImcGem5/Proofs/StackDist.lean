import ImcGem5.Lib.Blocks
import ImcGem5.Mem.StackDist

/-! The tree of partial sums against the stack it stands for. A node of the tree
counts the leaves of one block, so what every operation has to keep is stated in
blocks; only the nodes above the leaf that comes or goes are touched. -/

namespace ImcGem5.Mem.Proofs.StackDist
open Lib List Function Option Heap StackDistCalc
open Nat (pow_zero div_one two_pow_pos div_eq_of_lt)
open Bool (and_eq_true)

def done (live : Nat → Bool) (n k j : Nat) : Bool := decide ((j + 1) * 2 ^ k ≤ n) && block live k j == 0

variable {n k j : Nat} {state : StackDistCalc}

theorem done_iff {live : Nat → Bool} : done live n k j = true ↔ (j + 1) * 2 ^ k ≤ n ∧ block live k j = 0 := by
  simp only [done, and_eq_true, decide_eq_true_eq, beq_iff_eq]

theorem done_congr {live other : Nat → Bool} (same : ∀ i, i / 2 ^ k = j → live i = other i) : done live n k j = done other n k j := by
  unfold done
  rw [block_congr same]

theorem done_succ {live : Nat → Bool} : done live n (k + 1) j = (done live n k (2 * j) && done live n k (2 * j + 1)) := by
  rw [Bool.eq_iff_iff, and_eq_true, done_iff, done_iff, done_iff, block_succ]
  have bound : (j + 1) * 2 ^ (k + 1) = (2 * j + 1 + 1) * 2 ^ k := by ring
  have first : (2 * j + 1) * 2 ^ k ≤ (2 * j + 1 + 1) * 2 ^ k := Nat.mul_le_mul_right _ (by omega)
  rw [bound]
  constructor
  · intro ⟨full, empty⟩
    exact ⟨⟨by omega, by omega⟩, full, by omega⟩
  · intro ⟨⟨_, left⟩, full, right⟩
    exact ⟨full, by omega⟩

theorem setTree_tree (state : StackDistCalc) (level index k j : Nat) (entry : Option Nat) :
    (state.setTree level index entry).tree k j = if k = level ∧ j = index then entry else state.tree k j := by
  simp only [setTree, update_apply]
  by_cases layer : k = level
  · rw [if_pos layer, layer, update_apply]
    simp only [true_and]
  · rw [if_neg layer, if_neg (fun both => layer both.1)]

/-- What an inner node of layer `k + 1` has to say about the blocks below it. -/
structure InnerOk (live : Nat → Bool) (n k j : Nat) (node : StackNode) : Prop where
  sumLeft : node.sumLeft = block live k (2 * j)
  sumRight : node.sumRight = block live k (2 * j + 1)
  discardLeft : node.discardLeft = done live n k (2 * j)
  discardRight : node.discardRight = done live n k (2 * j + 1)

variable {node : StackNode}

theorem InnerOk.congr {live other : Nat → Bool} (ok : InnerOk live n k j node)
    (same : ∀ i, i / 2 ^ (k + 1) = j → live i = other i) : InnerOk other n k j node := by
  have left : ∀ i, i / 2 ^ k = 2 * j → live i = other i := by
    intro i inside
    apply same i
    rw [div_two_pow_succ]
    omega
  have right : ∀ i, i / 2 ^ k = 2 * j + 1 → live i = other i := by
    intro i inside
    apply same i
    rw [div_two_pow_succ]
    omega
  refine ⟨?_, ?_, ?_, ?_⟩
  · rw [ok.sumLeft, block_congr left]
  · rw [ok.sumRight, block_congr right]
  · rw [ok.discardLeft, done_congr left]
  · rw [ok.discardRight, done_congr right]

/-- Where a node sits. A node that was left behind empty may outlive its parent. -/
structure Placed (state : StackDistCalc) (k j : Nat) (node : StackNode) : Prop where
  nodeIndex : node.nodeIndex = j
  isLeftNode : node.isLeftNode = (j % 2 == 0)
  top : k = state.treeDepth → node.parent = none
  up : k < state.treeDepth → ∃ parent, node.parent = some parent ∧
    ∀ other, state.tree (k + 1) (j / 2) = some other → parent = other

/-- The tree of a state with `n` leaves so far, of which `base` are there. Layer `k`
counts the leaves of `view k`: while an update climbs, layers above it still have the
old sums. -/
structure Tree (state : StackDistCalc) (n : Nat) (base : Nat → Bool) (view : Nat → Nat → Bool) : Prop where
  bounded : state.nodes.Bounded
  leaves : ∀ i, (state.tree 0 i).isSome = base i
  distinct : ∀ k j k' j' address, state.tree k j = some address → state.tree k' j' = some address → k = k' ∧ j = j'
  placed : ∀ k j address, state.tree k j = some address → k ≤ state.treeDepth ∧
    ∃ node, state.nodes.cell address = some node ∧ Placed state k j node
  inner : ∀ k j address node, state.tree (k + 1) j = some address → state.nodes.cell address = some node →
    InnerOk (view (k + 1)) n k j node
  within : ∀ k j address, state.tree (k + 1) j = some address → j < state.nextIndex (k + 1)
  absent : ∀ k j, k + 1 ≤ state.treeDepth → j < state.nextIndex (k + 1) → state.tree (k + 1) j = none →
    k + 1 < state.treeDepth ∧ done (view (k + 1)) n (k + 1) j = true
  kept : ∀ k j address, state.tree (k + 1) j = some address → k + 1 < state.treeDepth →
    done (view (k + 1)) n (k + 1) j = true → j = 0

variable {base : Nat → Bool}

theorem Tree.present {state : StackDistCalc} {n : Nat} {view : Nat → Nat → Bool}
    (tree : Tree state n base view) {k j : Nat} (layer : k + 1 ≤ state.treeDepth) (reached : j < state.nextIndex (k + 1))
    (busy : done (view (k + 1)) n (k + 1) j = false) :
    ∃ address node, state.tree (k + 1) j = some address ∧ state.nodes.cell address = some node ∧
      Placed state (k + 1) j node ∧ InnerOk (view (k + 1)) n k j node := by
  cases entry : state.tree (k + 1) j with
  | none =>
    have gone := (tree.absent k j layer reached entry).2
    rw [busy] at gone
    cases gone
  | some address =>
    obtain ⟨_, node, held, placed⟩ := tree.placed (k + 1) j address entry
    exact ⟨address, node, rfl, held, placed, tree.inner k j address node entry held⟩

structure Change (n : Nat) (old new : Nat → Bool) (r : Nat) : Prop where
  elsewhere : ∀ i, i ≠ r → new i = old i
  quiet : ∀ k, done old n k (r / 2 ^ k) = false

def climbed (old new : Nat → Bool) (k : Nat) : Nat → Nat → Bool := fun level => if level ≤ k then new else old

def refreshed (node : StackNode) (left : Bool) (sum : Nat) (emptied : Bool) : StackNode :=
  { node with
    sumLeft := if left then sum else node.sumLeft
    sumRight := if left then node.sumRight else sum
    discardLeft := node.discardLeft || (emptied && left)
    discardRight := node.discardRight || (emptied && !left) }

section
variable {n r k : Nat} {old new : Nat → Bool}

theorem Change.same (change : Change n old new r) {j : Nat} (aside : j ≠ r / 2 ^ k) : ∀ i, i / 2 ^ k = j → old i = new i := by
  intro i inside
  symm
  apply change.elsewhere
  intro here
  rw [here] at inside
  exact aside inside.symm

theorem Change.refreshed (change : Change n old new r) (ok : InnerOk old n k (r / 2 ^ (k + 1)) node) :
    InnerOk new n k (r / 2 ^ (k + 1))
      (refreshed node (r / 2 ^ k % 2 == 0) (block new k (r / 2 ^ k)) (done new n k (r / 2 ^ k))) := by
  have parent := div_two_pow_succ r k
  have quiet := change.quiet k
  cases left : r / 2 ^ k % 2 == 0 with
  | true =>
    have side : 2 * (r / 2 ^ (k + 1)) = r / 2 ^ k := by
      have even := eq_of_beq left
      omega
    have others := change.same (by omega : 2 * (r / 2 ^ (k + 1)) + 1 ≠ r / 2 ^ k)
    refine ⟨?_, ?_, ?_, ?_⟩
    · rw [side]
      rfl
    · exact ok.sumRight.trans (block_congr others)
    · change (node.discardLeft || (done new n k (r / 2 ^ k) && true)) = _
      rw [ok.discardLeft, side, quiet, Bool.false_or, Bool.and_true]
    · change (node.discardRight || (done new n k (r / 2 ^ k) && false)) = _
      rw [ok.discardRight, done_congr others, Bool.and_false, Bool.or_false]
  | false =>
    have side : 2 * (r / 2 ^ (k + 1)) + 1 = r / 2 ^ k := by
      have odd := ne_of_beq_false left
      omega
    have others := change.same (by omega : 2 * (r / 2 ^ (k + 1)) ≠ r / 2 ^ k)
    refine ⟨?_, ?_, ?_, ?_⟩
    · exact ok.sumLeft.trans (block_congr others)
    · rw [side]
      rfl
    · change (node.discardLeft || (done new n k (r / 2 ^ k) && false)) = _
      rw [ok.discardLeft, done_congr others, Bool.and_false, Bool.or_false]
    · change (node.discardRight || (done new n k (r / 2 ^ k) && true)) = _
      rw [ok.discardRight, side, quiet, Bool.false_or, Bool.and_true]

variable {state : StackDistCalc} {base : Nat → Bool} {address : Nat} {node fresh : StackNode}

theorem climbed_done {m j : Nat} (change : Change n old new r) (aside : ¬ (m = k ∧ j = r / 2 ^ (k + 1))) :
    done (climbed old new (k + 1) (m + 1)) n (m + 1) j = done (climbed old new k (m + 1)) n (m + 1) j := by
  unfold climbed
  by_cases below : m + 1 ≤ k
  · rw [if_pos below, if_pos (by omega)]
  by_cases here : m = k
  · subst here
    rw [if_pos (by omega), if_neg (by omega)]
    exact (done_congr (change.same (fun same => aside ⟨rfl, same⟩))).symm
  · rw [if_neg below, if_neg (by omega)]

theorem climbed_inner {m j : Nat} {other : StackNode} (change : Change n old new r)
    (aside : ¬ (m = k ∧ j = r / 2 ^ (k + 1))) (ok : InnerOk (climbed old new k (m + 1)) n m j other) :
    InnerOk (climbed old new (k + 1) (m + 1)) n m j other := by
  unfold climbed at *
  by_cases below : m + 1 ≤ k
  · rw [if_pos below] at ok
    rw [if_pos (by omega)]
    exact ok
  by_cases here : m = k
  · subst here
    rw [if_neg (by omega)] at ok
    rw [if_pos (by omega)]
    exact ok.congr (change.same (fun same => aside ⟨rfl, same⟩))
  · rw [if_neg below] at ok
    rw [if_neg (by omega)]
    exact ok

theorem Tree.refresh (tree : Tree state n base (climbed old new k)) (change : Change n old new r)
    (entry : state.tree (k + 1) (r / 2 ^ (k + 1)) = some address) (held : state.nodes.cell address = some node)
    (ok : InnerOk new n k (r / 2 ^ (k + 1)) fresh) (placed : Placed state (k + 1) (r / 2 ^ (k + 1)) fresh)
    (stays : k + 1 < state.treeDepth → done new n (k + 1) (r / 2 ^ (k + 1)) = false) :
    Tree { state with nodes := state.nodes.write address fresh } n base (climbed old new (k + 1)) where
  bounded := tree.bounded.write held fresh
  leaves := tree.leaves
  distinct := tree.distinct
  placed := by
    intro m j other found
    obtain ⟨layer, object, there, sits⟩ := tree.placed m j other found
    refine ⟨layer, ?_⟩
    by_cases same : other = address
    · subst same
      obtain ⟨rfl, rfl⟩ := tree.distinct _ _ _ _ _ found entry
      exact ⟨fresh, by rw [write_cell, if_pos rfl], ⟨placed.nodeIndex, placed.isLeftNode, placed.top, placed.up⟩⟩
    · exact ⟨object, by rw [write_cell, if_neg same, there], ⟨sits.nodeIndex, sits.isLeftNode, sits.top, sits.up⟩⟩
  inner := by
    intro m j other object found there
    rw [write_cell] at there
    by_cases same : other = address
    · rw [if_pos same] at there
      cases there
      subst same
      obtain ⟨layer, rfl⟩ := tree.distinct _ _ _ _ _ found entry
      cases layer
      unfold climbed
      rw [if_pos (by omega)]
      exact ok
    · rw [if_neg same] at there
      refine climbed_inner change ?_ (tree.inner m j other object found there)
      intro ⟨layer, position⟩
      subst layer position
      rw [entry] at found
      cases found
      exact same rfl
  within := tree.within
  absent := by
    intro m j layer reached gone
    obtain ⟨below, empty⟩ := tree.absent m j layer reached gone
    refine ⟨below, ?_⟩
    rw [climbed_done change, empty]
    intro ⟨same, position⟩
    subst same position
    rw [entry] at gone
    cases gone
  kept := by
    intro m j other found below empty
    by_cases here : m = k ∧ j = r / 2 ^ (k + 1)
    · obtain ⟨rfl, rfl⟩ := here
      unfold climbed at empty
      rw [if_pos (by omega), stays below] at empty
      cases empty
    · rw [climbed_done change here] at empty
      exact tree.kept m j other found below empty

/-- A node goes. What the layers count may change in its block alone. -/
theorem Tree.drop {level index : Nat} {nodes : Heap StackNode} {after : Nat → Bool} {view view' : Nat → Nat → Bool}
    (tree : Tree state n base view) (entry : state.tree level index = some address) (bounded : nodes.Bounded)
    (cells : ∀ other, other ≠ address → nodes.cell other = state.nodes.cell other)
    (leaves : ∀ i, after i = if 0 = level ∧ i = index then false else base i)
    (inner : ∀ m j object, ¬ (m + 1 = level ∧ j = index) → InnerOk (view (m + 1)) n m j object → InnerOk (view' (m + 1)) n m j object)
    (same : ∀ m j, ¬ (m + 1 = level ∧ j = index) → done (view' (m + 1)) n (m + 1) j = done (view (m + 1)) n (m + 1) j)
    (gone : ∀ m, m + 1 = level → level < state.treeDepth ∧ done (view' level) n level index = true) :
    Tree ({ state with nodes }.setTree level index none) n after view' := by
  have lookup : ∀ m j other, ({ state with nodes }.setTree level index none).tree m j = some other →
      ¬ (m = level ∧ j = index) ∧ state.tree m j = some other ∧ other ≠ address := by
    intro m j other found
    rw [setTree_tree] at found
    split at found
    · cases found
    next aside =>
      refine ⟨aside, found, ?_⟩
      rintro rfl
      exact aside (tree.distinct _ _ _ _ _ found entry)
  constructor
  · exact bounded
  · intro i
    rw [setTree_tree, leaves, ← tree.leaves i]
    split <;> rfl
  · intro m j m' j' other found found'
    exact tree.distinct _ _ _ _ _ (lookup _ _ _ found).2.1 (lookup _ _ _ found').2.1
  · intro m j other found
    obtain ⟨_, found, different⟩ := lookup m j other found
    obtain ⟨layer, object, there, sits⟩ := tree.placed m j other found
    refine ⟨layer, object, (cells other different).trans there, sits.nodeIndex, sits.isLeftNode, sits.top, ?_⟩
    intro lower
    obtain ⟨parent, linked, unique⟩ := sits.up lower
    exact ⟨parent, linked, fun above there => unique above (lookup _ _ _ there).2.1⟩
  · intro m j other object found there
    obtain ⟨aside, found, different⟩ := lookup (m + 1) j other found
    exact inner m j object aside (tree.inner m j other object found ((cells other different).symm.trans there))
  · intro m j other found
    exact tree.within m j other (lookup _ _ _ found).2.1
  · intro m j layer reached none_
    rw [setTree_tree] at none_
    split at none_
    next here =>
      rw [here.1, here.2]
      exact gone m here.1
    next aside =>
      obtain ⟨lower, past⟩ := tree.absent m j layer reached none_
      exact ⟨lower, (same m j aside).trans past⟩
  · intro m j other found lower past
    obtain ⟨aside, found, _⟩ := lookup (m + 1) j other found
    exact tree.kept m j other found lower ((same m j aside).symm.trans past)

theorem Tree.discard (tree : Tree state n base (climbed old new k)) (change : Change n old new r)
    (entry : state.tree (k + 1) (r / 2 ^ (k + 1)) = some address) (below : k + 1 < state.treeDepth)
    (empty : done new n (k + 1) (r / 2 ^ (k + 1)) = true) :
    Tree ({ state with nodes := (state.nodes.write address fresh).free address }.setTree (k + 1) (r / 2 ^ (k + 1)) none)
      n base (climbed old new (k + 1)) := by
  obtain ⟨_, _, held, _⟩ := tree.placed _ _ _ entry
  refine tree.drop entry ((tree.bounded.write held fresh).free address) ?_ ?_ ?_ ?_ fun m layer => ⟨below, ?_⟩
  · intro other different
    rw [free_cell, if_neg different, write_cell, if_neg different]
  · intro i
    rw [if_neg (by omega)]
  · exact fun m j object aside => climbed_inner change (by omega)
  · exact fun m j aside => climbed_done change (by omega)
  · unfold climbed
    rw [if_pos (by omega)]
    exact empty

end

theorem intShift_of_le {i : Nat} (small : i ≤ 30) : intShift i = 2 ^ i := by
  have each : ∀ i, i < 31 → intShift i = 2 ^ i := by decide
  exact each i (by omega)

theorem checkSums_ok {live : Nat → Bool} (ok : InnerOk live n k j node) (small : k ≤ 30) : state.checkSums node (k + 1) = .ok () := by
  have left := ok.sumLeft ▸ @block_le live k (2 * j)
  have right := ok.sumRight ▸ @block_le live k (2 * j + 1)
  unfold checkSums
  rw [Nat.add_sub_cancel, intShift_of_le small]
  split
  · rw [decide_eq_false (Nat.not_lt.mpr left), decide_eq_false (Nat.not_lt.mpr right)]
    rfl
  · rfl

structure SameBut (state after : StackDistCalc) : Prop where
  verifyStack : after.verifyStack = state.verifyStack
  index : after.index = state.index
  treeDepth : after.treeDepth = state.treeDepth
  aiMap : after.aiMap = state.aiMap
  nextIndex : after.nextIndex = state.nextIndex
  stack : after.stack = state.stack

theorem SameBut.trans {first second third : StackDistCalc} (early : SameBut first second) (late : SameBut second third) :
    SameBut first third :=
  ⟨late.verifyStack.trans early.verifyStack, late.index.trans early.index, late.treeDepth.trans early.treeDepth,
    late.aiMap.trans early.aiMap, late.nextIndex.trans early.nextIndex, late.stack.trans early.stack⟩

def stop (r k : Nat) : Nat := (r / 2 ^ k + 1) * 2 ^ k

/-- The sums above leaf `r` are updated up to level `k`. -/
structure Climbed (state after : StackDistCalc) (n : Nat) (base old new : Nat → Bool) (r k : Nat) : Prop where
  same : SameBut state after
  tree : Tree after n base (climbed old new state.treeDepth)
  gone : ∀ m j, after.tree m j =
    if (k < m ∧ m < state.treeDepth) ∧ j = r / 2 ^ m ∧ done new n m j = true then none else state.tree m j

section
variable {n r : Nat} {old new base : Nat → Bool} {state : StackDistCalc} {k : Nat} {node : StackNode}

theorem Climbed.of_nodes {after : StackDistCalc} {nodes : Heap StackNode}
    (ends : Climbed { state with nodes } after n base old new r k) : Climbed state after n base old new r k :=
  ⟨⟨ends.same.verifyStack, ends.same.index, ends.same.treeDepth, ends.same.aiMap, ends.same.nextIndex, ends.same.stack⟩,
    ends.tree, ends.gone⟩

theorem updateSum_succ {turns dist address : Nat}
    (change : Change n old new r) (small : k ≤ 30) (held : state.nodes.cell address = some node)
    (ok : InnerOk old n k (r / 2 ^ (k + 1)) node) :
    updateSum (turns + 1) state address (r / 2 ^ k % 2 == 0) (block new k (r / 2 ^ k)) k dist
        (done new n k (r / 2 ^ k)) =
      let fresh := refreshed node (r / 2 ^ k % 2 == 0) (block new k (r / 2 ^ k)) (done new n k (r / 2 ^ k))
      let discarded := done new n (k + 1) (r / 2 ^ (k + 1)) && node.parent.isSome
      let after :=
        if discarded then
          { state with nodes := (state.nodes.write address fresh).free address }.setTree (k + 1) node.nodeIndex none
        else { state with nodes := state.nodes.write address fresh }
      let dist := if r / 2 ^ k % 2 == 0 then dist + node.sumRight else dist
      match node.parent with
      | none => .ok (after, dist)
      | some parent => updateSum turns after parent node.isLeftNode
          (block new (k + 1) (r / 2 ^ (k + 1))) (k + 1) dist discarded := by
  have told := change.refreshed ok
  have emptied : (done new n k (r / 2 ^ k) && block new k (r / 2 ^ k) == 0) = done new n k (r / 2 ^ k) := by
    cases finished : done new n k (r / 2 ^ k) with
    | false => rfl
    | true =>
      rw [(done_iff.mp finished).2]
      rfl
  have parent := div_two_pow_succ r k
  generalize fresh_eq : refreshed node (r / 2 ^ k % 2 == 0) (block new k (r / 2 ^ k)) (done new n k (r / 2 ^ k)) = fresh
    at told
  have flags : (fresh.discardLeft && fresh.discardRight && done new n k (r / 2 ^ k) && node.parent.isSome &&
      block new k (r / 2 ^ k) == 0) = (done new n (k + 1) (r / 2 ^ (k + 1)) && node.parent.isSome) := by
    rw [told.discardLeft, told.discardRight, ← done_succ]
    cases finished : done new n (k + 1) (r / 2 ^ (k + 1)) with
    | false => rfl
    | true =>
      rw [done_succ, and_eq_true] at finished
      have mine : done new n k (r / 2 ^ k) = true := by
        rcases Nat.mod_two_eq_zero_or_one (r / 2 ^ k) with even | odd
        · rw [(by omega : r / 2 ^ k = 2 * (r / 2 ^ (k + 1)))]
          exact finished.1
        · rw [(by omega : r / 2 ^ k = 2 * (r / 2 ^ (k + 1)) + 1)]
          exact finished.2
      rw [mine, (done_iff.mp mine).2]
      simp
  have sums : fresh.sumLeft + fresh.sumRight = block new (k + 1) (r / 2 ^ (k + 1)) := by
    rw [told.sumLeft, told.sumRight, ← block_succ]
  rw [updateSum, read_of_cell held, ok_bind, checkSums_ok ok small, ok_bind, emptied]
  rw [← flags, ← sums, ← fresh_eq]
  rfl

theorem between_step (dist : Nat) (ok : InnerOk old n k (r / 2 ^ (k + 1)) node) :
    (if r / 2 ^ k % 2 == 0 then dist + node.sumRight else dist) + between old r (stop r k) =
      dist + between old r (stop r (k + 1)) := by
  unfold stop
  rcases Nat.mod_two_eq_zero_or_one (r / 2 ^ k) with even | odd
  · rw [between_left old r k even, ok.sumRight, even]
    simp only [beq_self_eq_true, if_true]
    omega
  · rw [between_right old r k odd, odd]
    simp

theorem Placed.refreshed {j : Nat} (placed : Placed state k j node)
    (left : Bool) (sum : Nat) (emptied : Bool) : Placed state k j (refreshed node left sum emptied) :=
  ⟨placed.nodeIndex, placed.isLeftNode, placed.top, placed.up⟩

theorem climb_layer {address : Nat} {fresh : StackNode} (change : Change n old new r) (tree : Tree state n base (climbed old new k))
    (entry : state.tree (k + 1) (r / 2 ^ (k + 1)) = some address) (held : state.nodes.cell address = some node)
    (told : InnerOk new n k (r / 2 ^ (k + 1)) fresh) (placed : Placed state (k + 1) (r / 2 ^ (k + 1)) fresh)
    {discarded : Bool} (below : k + 1 < state.treeDepth → discarded = done new n (k + 1) (r / 2 ^ (k + 1)))
    (top : k + 1 = state.treeDepth → discarded = false) {after : StackDistCalc}
    (made : after = if discarded then
        { state with nodes := (state.nodes.write address fresh).free address }.setTree (k + 1) (r / 2 ^ (k + 1)) none
      else { state with nodes := state.nodes.write address fresh }) :
    SameBut state after ∧ Tree after n base (climbed old new (k + 1)) ∧ ∀ m j, after.tree m j =
      if (m = k + 1 ∧ m < state.treeDepth) ∧ j = r / 2 ^ m ∧ done new n m j = true then none else state.tree m j := by
  have layer := (tree.placed _ _ _ entry).1
  cases discarded with
  | true =>
    have lower : k + 1 < state.treeDepth := by
      by_contra high
      have stays := top (by omega)
      cases stays
    have empty := (below lower).symm
    rw [if_pos rfl] at made
    subst made
    refine ⟨⟨rfl, rfl, rfl, rfl, rfl, rfl⟩, tree.discard change entry lower empty, ?_⟩
    intro m j
    rw [setTree_tree]
    by_cases here : m = k + 1 ∧ j = r / 2 ^ (k + 1)
    · obtain ⟨rfl, rfl⟩ := here
      rw [if_pos ⟨rfl, rfl⟩, if_pos ⟨⟨rfl, lower⟩, rfl, empty⟩]
    · rw [if_neg here, if_neg]
      intro ⟨⟨same, _⟩, position, _⟩
      subst same
      exact here ⟨rfl, position⟩
  | false =>
    rw [if_neg Bool.false_ne_true] at made
    subst made
    refine ⟨⟨rfl, rfl, rfl, rfl, rfl, rfl⟩,
      tree.refresh change entry held told placed (fun lower => (below lower).symm), ?_⟩
    intro m j
    rw [if_neg]
    intro ⟨⟨same, lower⟩, position, empty⟩
    subst same position
    rw [← below lower] at empty
    cases empty

theorem updateSum_ok (change : Change n old new r) {turns k address : Nat} {state : StackDistCalc} (dist : Nat)
    (tree : Tree state n base (climbed old new k)) (height : k + turns = state.treeDepth) (started : 0 < turns)
    (entry : state.tree (k + 1) (r / 2 ^ (k + 1)) = some address)
    (reach : ∀ m, m + 1 ≤ state.treeDepth → r / 2 ^ (m + 1) < state.nextIndex (m + 1)) (low : state.treeDepth ≤ 31) :
    ∃ after total, updateSum turns state address (r / 2 ^ k % 2 == 0) (block new k (r / 2 ^ k)) k dist
        (done new n k (r / 2 ^ k)) = .ok (after, total) ∧
      total + between old r (stop r k) = dist + between old r (stop r state.treeDepth) ∧
      Climbed state after n base old new r k := by
  induction turns generalizing k dist address state with
  | zero => omega
  | succ _ ih =>
    obtain ⟨_, node, held, placed⟩ := tree.placed _ _ _ entry
    have ok := tree.inner _ _ _ _ entry held
    unfold climbed at ok
    rw [if_neg (by omega)] at ok
    have told := change.refreshed ok
    have step := between_step dist ok
    have below : k + 1 < state.treeDepth → (done new n (k + 1) (r / 2 ^ (k + 1)) && node.parent.isSome) =
        done new n (k + 1) (r / 2 ^ (k + 1)) := by
      intro lower
      obtain ⟨parent, linked, _⟩ := placed.up lower
      rw [linked, isSome_some, Bool.and_true]
    have top : k + 1 = state.treeDepth → (done new n (k + 1) (r / 2 ^ (k + 1)) && node.parent.isSome) = false := by
      intro high
      rw [placed.top high, isSome_none, Bool.and_false]
    rw [updateSum_succ change (by omega) held ok]
    dsimp only
    rw [placed.nodeIndex]
    obtain ⟨same, next, gone⟩ := climb_layer change tree entry held told (placed.refreshed _ _ _) below top rfl
    generalize (if (done new n (k + 1) (r / 2 ^ (k + 1)) && node.parent.isSome) = true then _ else _) = middle
      at same next gone ⊢
    by_cases here : k + 1 = state.treeDepth
    · rw [placed.top here]
      refine ⟨middle, _, rfl, ?_, same, ?_, ?_⟩
      · rw [step, here]
      · rw [← here]
        exact next
      · intro m j
        rw [gone m j, if_neg (by omega), if_neg (by omega)]
    · have lower : k + 1 < state.treeDepth := by omega
      obtain ⟨parent, linked, unique⟩ := placed.up lower
      have busy : done (climbed old new k (k + 1 + 1)) n (k + 1 + 1) (r / 2 ^ (k + 1 + 1)) = false := by
        unfold climbed
        rw [if_neg (by omega)]
        exact change.quiet _
      obtain ⟨above, _, found, _⟩ := tree.present (by omega) (reach (k + 1) (by omega)) busy
      have up : r / 2 ^ (k + 1) / 2 = r / 2 ^ (k + 1 + 1) := (div_two_pow_succ r (k + 1)).symm
      rw [up] at unique
      rw [below lower, linked, unique above found, placed.isLeftNode]
      have entry' : middle.tree (k + 1 + 1) (r / 2 ^ (k + 1 + 1)) = some above := by
        rw [gone, if_neg (by omega), found]
      obtain ⟨after, total, ran, distance, ends⟩ := @ih (k + 1) above middle
        (if r / 2 ^ k % 2 == 0 then dist + node.sumRight else dist) next (by rw [same.treeDepth]; omega) (by omega) entry'
        (by rw [same.treeDepth, same.nextIndex]; exact reach) (by rw [same.treeDepth]; exact low)
      refine ⟨after, total, ran, ?_, same.trans ends.same, ?_, ?_⟩
      · rw [same.treeDepth] at distance
        omega
      · rw [← same.treeDepth]
        exact ends.tree
      · intro m j
        rw [ends.gone m j, gone m j, same.treeDepth]
        by_cases mine : (k < m ∧ m < state.treeDepth) ∧ j = r / 2 ^ m ∧ done new n m j = true
        · rw [if_pos mine]
          by_cases first : m = k + 1
          · rw [if_neg (by omega), if_pos ⟨⟨first, mine.1.2⟩, mine.2⟩]
          · rw [if_pos ⟨⟨by omega, mine.1.2⟩, mine.2⟩]
        · rw [if_neg mine, if_neg, if_neg]
          · intro ⟨⟨first, lower⟩, rest⟩
            exact mine ⟨⟨by omega, lower⟩, rest⟩
          · intro ⟨⟨later, lower⟩, rest⟩
            exact mine ⟨⟨by omega, lower⟩, rest⟩

end

section
variable {state : StackDistCalc} {n i leaf : Nat} {base : Nat → Bool} {view : Nat → Nat → Bool} {node fresh : StackNode}

section

variable (tree : Tree state n base view)
include tree

theorem Tree.viewed {other : Nat → Nat → Bool} (same : ∀ k, k + 1 ≤ state.treeDepth → other (k + 1) = view (k + 1)) : Tree state n base other where
  bounded := tree.bounded
  leaves := tree.leaves
  distinct := tree.distinct
  placed := tree.placed
  inner := by
    intro k j address node entry held
    rw [same k (tree.placed _ _ _ entry).1]
    exact tree.inner k j address node entry held
  within := tree.within
  absent := by
    intro k j layer reached gone
    rw [same k layer]
    exact tree.absent k j layer reached gone
  kept := by
    intro k j address entry below
    rw [same k (by omega)]
    exact tree.kept k j address entry below

theorem Tree.moved {after : StackDistCalc} (nodes : after.nodes = state.nodes)
    (entries : after.tree = state.tree) (depth : after.treeDepth = state.treeDepth)
    (next : after.nextIndex = state.nextIndex) : Tree after n base view := by
  cases state
  cases after
  subst nodes entries depth next
  refine ⟨tree.bounded, tree.leaves, tree.distinct, ?_, tree.inner, tree.within, tree.absent, tree.kept⟩
  intro k j address entry
  obtain ⟨layer, node, held, placed⟩ := tree.placed k j address entry
  exact ⟨layer, node, held, placed.nodeIndex, placed.isLeftNode, placed.top, placed.up⟩

theorem Tree.writeLeaf (entry : state.tree 0 i = some leaf)
    (placed : Placed state 0 i fresh) : Tree { state with nodes := state.nodes.write leaf fresh } n base view := by
  obtain ⟨_, _, held, _⟩ := tree.placed _ _ _ entry
  have inner : ∀ k j address, state.tree (k + 1) j = some address → address ≠ leaf := by
    intro k j address found same
    subst same
    have wrong := (tree.distinct _ _ _ _ _ found entry).1
    omega
  constructor
  · exact tree.bounded.write held fresh
  · exact tree.leaves
  · exact tree.distinct
  · intro m j other found
    obtain ⟨layer, object, there, sits⟩ := tree.placed m j other found
    refine ⟨layer, ?_⟩
    by_cases same : other = leaf
    · subst same
      obtain ⟨rfl, rfl⟩ := tree.distinct _ _ _ _ _ found entry
      exact ⟨fresh, by rw [write_cell, if_pos rfl], placed.nodeIndex, placed.isLeftNode, placed.top, placed.up⟩
    · exact ⟨object, by rw [write_cell, if_neg same, there], sits.nodeIndex, sits.isLeftNode, sits.top, sits.up⟩
  · intro m j other object found there
    rw [write_cell, if_neg (inner m j other found)] at there
    exact tree.inner m j other object found there
  · exact tree.within
  · exact tree.absent
  · exact tree.kept

theorem Tree.dropLeaf (entry : state.tree 0 i = some leaf) :
    Tree ({ state with nodes := state.nodes.free leaf }.setTree 0 i none) n (fun other => base other && other != i)
      view := by
  refine tree.drop entry (tree.bounded.free leaf) ?_ ?_ (fun _ _ _ _ ok => ok) (fun _ _ _ => rfl)
    fun _ layer => absurd layer (Nat.succ_ne_zero _)
  · intro other different
    rw [free_cell, if_neg different]
  · intro other
    by_cases same : other = i
    · simp [same]
    · simp [same]

end

end

def live (state : StackDistCalc) : Nat → Bool := fun i => (state.tree 0 i).isSome

structure Sizes (state : StackDistCalc) (n : Nat) : Prop where
  height : 1 ≤ state.treeDepth
  room : n ≤ 2 ^ state.treeDepth
  tight : state.treeDepth = 1 ∨ 2 ^ (state.treeDepth - 1) < n
  next : ∀ k, k + 1 ≤ state.treeDepth → state.nextIndex (k + 1) = (n - 1) / 2 ^ (k + 1) + 1

/-- A tree of `n` leaves that sums the live ones. -/
structure Shape (state : StackDistCalc) (n : Nat) : Prop where
  sizes : Sizes state n
  tree : Tree state n (live state) (fun _ => live state)
  recent : ∀ i, live state i = true → i < n

theorem Sizes.low (sizes : Sizes state n) (few : n < 2 ^ 31) : state.treeDepth ≤ 31 := by
  rcases sizes.tight with small | tight
  · omega
  · have bound : 2 ^ (state.treeDepth - 1) < 2 ^ 31 := by omega
    have := (Nat.pow_lt_pow_iff_right (by omega : 1 < 2)).mp bound
    omega

theorem Sizes.reach {r : Nat} (sizes : Sizes state n) (inside : r < n) :
    ∀ m, m + 1 ≤ state.treeDepth → r / 2 ^ (m + 1) < state.nextIndex (m + 1) := by
  intro m layer
  rw [sizes.next m layer]
  have below : r / 2 ^ (m + 1) ≤ (n - 1) / 2 ^ (m + 1) := Nat.div_le_div_right (by omega)
  omega

theorem SameBut.sizes {after : StackDistCalc} (same : SameBut state after) (sizes : Sizes state n) : Sizes after n := by
  obtain ⟨height, room, tight, next⟩ := sizes
  refine ⟨?_, ?_, ?_, ?_⟩
  · rw [same.treeDepth]
    exact height
  · rw [same.treeDepth]
    exact room
  · rw [same.treeDepth]
    exact tight
  · rw [same.treeDepth, same.nextIndex]
    exact next

def without (leaves : Nat → Bool) (r : Nat) : Nat → Bool := fun i => leaves i && i != r

section
variable {state : StackDistCalc} {n r leaf : Nat} {leaves : Nat → Bool}

theorem change_without (held : leaves r = true) : Change n leaves (without leaves r) r where
  elsewhere := by
    intro i different
    rw [without, (bne_iff_ne.mpr different : (i != r) = true), Bool.and_true]
  quiet := by
    intro k
    have some : 0 < block leaves k (r / 2 ^ k) := block_pos held
    rw [done, beq_false_of_ne (by omega), Bool.and_false]

theorem Tree.above {view : Nat → Nat → Bool} (tree : Tree state n base view) (height : 1 ≤ state.treeDepth)
    (entry : state.tree 0 r = some leaf) (reached : r / 2 ^ (0 + 1) < state.nextIndex (0 + 1))
    (busy : done (view 1) n 1 (r / 2 ^ (0 + 1)) = false) :
    ∃ node parent, state.nodes.cell leaf = some node ∧ Placed state 0 r node ∧ node.parent = some parent ∧
      state.tree (0 + 1) (r / 2 ^ (0 + 1)) = some parent := by
  obtain ⟨_, node, held, placed⟩ := tree.placed _ _ _ entry
  obtain ⟨parent, linked, unique⟩ := placed.up (by omega)
  obtain ⟨above, _, found, _⟩ := tree.present height reached busy
  rw [unique above found] at linked
  exact ⟨node, above, held, placed, linked, found⟩

theorem updateSumsLeavesToRoot_false (shape : Shape state n) (entry : state.tree 0 r = some leaf) (few : n < 2 ^ 31) :
    ∃ after, state.updateSumsLeavesToRoot leaf false = .ok (after, between (live state) r (stop r state.treeDepth)) ∧
      Climbed state after n (live state) (live state) (without (live state) r) r 0 := by
  have held : live state r = true := by
    unfold live
    rw [entry]
    rfl
  have inside := shape.recent r held
  have change := change_without (n := n) held
  obtain ⟨node, parent, there, placed, linked, above⟩ := shape.tree.above shape.sizes.height entry
    (shape.sizes.reach inside 0 shape.sizes.height) (change.quiet 1)
  have tree : Tree { state with nodes := state.nodes.write leaf { node with sumLeft := 0 } } n (live state)
      (climbed (live state) (without (live state) r) 0) := by
    have sits : Placed state 0 r { node with sumLeft := 0 } :=
      ⟨placed.nodeIndex, placed.isLeftNode, placed.top, placed.up⟩
    apply (shape.tree.writeLeaf entry sits).viewed
    intro k _
    unfold climbed
    rw [if_neg (by omega)]
  have gone : block (without (live state) r) 0 (r / 2 ^ 0) = 0 := by
    rw [block_zero, pow_zero, div_one]
    simp [without]
  have finished : done (without (live state) r) n 0 (r / 2 ^ 0) = true := by
    rw [done_iff]
    refine ⟨?_, gone⟩
    rw [pow_zero, div_one, Nat.mul_one]
    exact inside
  obtain ⟨after, _, ran, distance, ends⟩ := updateSum_ok change 0 tree (Nat.zero_add _) shape.sizes.height
    above (shape.sizes.reach inside) (shape.sizes.low few)
  have here : between (live state) r (stop r 0) = 0 := between_self _ _
  rw [here, Nat.add_zero, Nat.zero_add] at distance
  rw [gone, finished, pow_zero, div_one, ← placed.isLeftNode, distance] at ran
  have up : leafParent node = .ok parent := by
    rw [leafParent, linked]
  refine ⟨after, ?_, ends.of_nodes⟩
  rw [updateSumsLeavesToRoot, read_of_cell there, ok_bind, up, ok_bind, if_neg Bool.false_ne_true]
  exact ran

theorem discardLeaf_ok (shape : Shape state n) (entry : state.tree 0 r = some leaf) (few : n < 2 ^ 31) :
    ∃ after mark, state.discardLeaf r = .ok (after, between (live state) r (stop r state.treeDepth), mark) ∧
      SameBut state after ∧ Shape after n ∧ live after = without (live state) r ∧ ∀ m j, after.tree m j =
        if (m = 0 ∧ j = r) ∨ ((0 < m ∧ m < state.treeDepth) ∧ j = r / 2 ^ m ∧
          done (without (live state) r) n m j = true) then none else state.tree m j := by
  obtain ⟨middle, ran, same, tree, gone⟩ := updateSumsLeavesToRoot_false shape entry few
  have still : middle.tree 0 r = some leaf := by
    rw [gone, if_neg (by omega), entry]
  obtain ⟨_, node, held, _⟩ := tree.placed _ _ _ still
  have dropped := tree.dropLeaf still
  have left : live ({ middle with nodes := middle.nodes.free leaf }.setTree 0 r none) = without (live state) r := by
    funext i
    exact dropped.leaves i
  refine ⟨{ middle with nodes := middle.nodes.free leaf }.setTree 0 r none, node.isMarked, ?_, ?_, ?_, left, ?_⟩
  · rw [discardLeaf, entry]
    dsimp only
    rw [ran, ok_bind]
    rw [read_of_cell held, ok_bind]
    rfl
  · exact ⟨same.verifyStack, same.index, same.treeDepth, same.aiMap, same.nextIndex, same.stack⟩
  · refine ⟨?_, ?_, ?_⟩
    · apply SameBut.sizes _ shape.sizes
      exact ⟨same.verifyStack, same.index, same.treeDepth, same.aiMap, same.nextIndex, same.stack⟩
    · rw [left]
      apply dropped.viewed
      intro k layer
      change k + 1 ≤ middle.treeDepth at layer
      rw [same.treeDepth] at layer
      unfold climbed
      rw [if_pos layer]
    · intro i there
      rw [left, without, and_eq_true] at there
      exact shape.recent i there.1
  · intro m j
    rw [setTree_tree]
    change (if m = 0 ∧ j = r then none else middle.tree m j) = _
    rw [gone]
    by_cases mine : m = 0 ∧ j = r
    · rw [if_pos mine, if_pos (.inl mine)]
    · rw [if_neg mine]
      by_cases above : (0 < m ∧ m < state.treeDepth) ∧ j = r / 2 ^ m ∧ done (without (live state) r) n m j = true
      · rw [if_pos above, if_pos (.inr above)]
      · rw [if_neg above, if_neg]
        intro either
        exact either.elim mine above

end

def Attached (state : StackDistCalc) : Prop :=
  ∀ k j address, state.tree k j = some address → k < state.treeDepth → (state.tree (k + 1) (j / 2)).isSome = true

/-- The tree while its layers are made ready for leaf `n`: those above `i` are. -/
structure Grown (state : StackDistCalc) (n i : Nat) : Prop where
  height : 1 ≤ state.treeDepth
  room : n < 2 ^ state.treeDepth
  tight : state.treeDepth = 1 ∨ 2 ^ (state.treeDepth - 1) < n + 1
  next : ∀ k, k + 1 ≤ state.treeDepth →
    state.nextIndex (k + 1) = (if i < k + 1 then n else n - 1) / 2 ^ (k + 1) + 1
  tree : Tree state n (live state) (fun _ => live state)
  recent : ∀ i, live state i = true → i < n

section
variable {state : StackDistCalc} {n i : Nat} {leaves base : Nat → Bool} {after : StackDistCalc} {parent : Nat}

theorem not_done (leaves : Nat → Bool) (n k : Nat) : done leaves n k (n / 2 ^ k) = false := by
  have beyond : n < (n / 2 ^ k + 1) * 2 ^ k := by
    rw [Nat.mul_comm]
    exact Nat.lt_mul_div_succ n (two_pow_pos k)
  rw [done, decide_eq_false (by omega), Bool.false_and]

theorem Grown.skip (grown : Grown state n (i + 1)) (undivided : ¬ 2 ^ (i + 1) ∣ n) : Grown state n i := by
  refine ⟨grown.height, grown.room, grown.tight, ?_, grown.tree, grown.recent⟩
  intro k layer
  rw [grown.next k layer]
  by_cases here : k = i
  · subst here
    rw [if_neg (by omega), if_pos (by omega)]
    cases n with
    | zero => exact absurd (Nat.dvd_zero _) undivided
    | succ => rw [Nat.succ_div, if_neg undivided, Nat.add_sub_cancel, Nat.add_zero]
  · by_cases above : i + 1 < k + 1
    · rw [if_pos above, if_pos (by omega)]
    · rw [if_neg above, if_neg (by omega)]

theorem block_beyond (recent : ∀ i, leaves i = true → i < n) {k j : Nat} (beyond : n ≤ j * 2 ^ k) : block leaves k j = 0 := by
  rw [block_eq_zero]
  intro i inside
  by_contra held
  have before := recent i (Bool.not_eq_false _ ▸ held)
  have lower : j * 2 ^ k ≤ i := by
    rw [← inside]
    exact Nat.div_mul_le_self i _
  omega

theorem done_beyond {k j : Nat} (beyond : n ≤ j * 2 ^ k) : done leaves n k j = false := by
  have positive := two_pow_pos k
  have later : n < (j + 1) * 2 ^ k := by
    rw [Nat.add_mul, Nat.one_mul]
    omega
  rw [done, decide_eq_false (by omega), Bool.false_and]

theorem alloc_lookup {view : Nat → Nat → Bool} (tree : Tree state n base view)
    {fresh : StackNode} {nextIndex : Nat → Nat} {level index : Nat} {m j address : Nat}
    (found : ({ state with nodes := (state.nodes.alloc fresh).1, nextIndex }.setTree level index
      (some state.nodes.next)).tree m j = some address) :
    ((m = level ∧ j = index) ∧ address = state.nodes.next) ∨
      (¬ (m = level ∧ j = index) ∧ state.tree m j = some address ∧ address ≠ state.nodes.next) := by
  rw [setTree_tree] at found
  split at found
  next here =>
    cases found
    exact .inl ⟨here, rfl⟩
  next aside =>
    refine .inr ⟨aside, found, ?_⟩
    obtain ⟨_, _, held, _⟩ := tree.placed _ _ _ found
    have bound := tree.bounded _ _ held
    omega

theorem Tree.alloc {view : Nat → Nat → Bool} (tree : Tree state n base view) {fresh : StackNode} {nextIndex : Nat → Nat} {level index : Nat}
    (made : after = { state with nodes := (state.nodes.alloc fresh).1, nextIndex }.setTree level index
      (some state.nodes.next))
    (layer : level ≤ state.treeDepth) (placed : Placed state level index fresh) (vacant : state.tree level index = none)
    (alone : ∀ m j, level = m + 1 → j / 2 = index → state.tree m j = none)
    (inner : ∀ m, level = m + 1 → InnerOk (view level) n m index fresh) (unfinished : done (view level) n level index = false)
    (grows : ∀ k, nextIndex (k + 1) = if k + 1 = level then state.nextIndex (k + 1) + 1 else state.nextIndex (k + 1))
    (last : ∀ m, level = m + 1 → index = state.nextIndex level) :
    Tree after n (fun i => base i || (level == 0 && i == index)) view := by
  subst made
  have lookup := @alloc_lookup state n base view tree fresh nextIndex level index
  have cells : ∀ other, other ≠ state.nodes.next → (state.nodes.alloc fresh).1.cell other = state.nodes.cell other := by
    intro other different
    rw [alloc_cell, if_neg different]
  have mine : (state.nodes.alloc fresh).1.cell state.nodes.next = some fresh := by
    rw [alloc_cell, if_pos rfl]
  constructor
  · exact tree.bounded.alloc fresh
  · intro i
    rw [setTree_tree, ← tree.leaves i]
    by_cases here : 0 = level ∧ i = index
    · obtain ⟨rfl, rfl⟩ := here
      simp
    · rw [if_neg here]
      have aside : (level == 0 && i == index) = false := by
        rw [← Bool.not_eq_true, and_eq_true, beq_iff_eq, beq_iff_eq]
        exact fun both => here ⟨both.1.symm, both.2⟩
      rw [aside, Bool.or_false]
  · intro m j m' j' address found found'
    rcases lookup found with ⟨⟨rfl, rfl⟩, rfl⟩ | ⟨_, older, different⟩
    · rcases lookup found' with ⟨⟨rfl, rfl⟩, _⟩ | ⟨_, _, different⟩
      · exact ⟨rfl, rfl⟩
      · exact absurd rfl different
    · rcases lookup found' with ⟨_, same⟩ | ⟨_, older', _⟩
      · exact absurd same different
      · exact tree.distinct _ _ _ _ _ older older'
  · intro m j address found
    rcases lookup found with ⟨⟨rfl, rfl⟩, rfl⟩ | ⟨_, older, different⟩
    · refine ⟨layer, fresh, mine, placed.nodeIndex, placed.isLeftNode, placed.top, ?_⟩
      intro lower
      obtain ⟨parent, linked, unique⟩ := placed.up lower
      refine ⟨parent, linked, ?_⟩
      intro other there
      rw [setTree_tree, if_neg (by omega)] at there
      exact unique other there
    · obtain ⟨under, object, there, sits⟩ := tree.placed _ _ _ older
      refine ⟨under, object, (cells address different).trans there, sits.nodeIndex, sits.isLeftNode, sits.top, ?_⟩
      intro lower
      obtain ⟨parent, linked, unique⟩ := sits.up lower
      refine ⟨parent, linked, ?_⟩
      intro other above
      rw [setTree_tree] at above
      split at above
      next here =>
        rw [alone m j here.1.symm here.2] at older
        cases older
      next => exact unique other above
  · intro m j address object found there
    change (state.nodes.alloc fresh).1.cell address = some object at there
    rcases lookup found with ⟨⟨same, rfl⟩, rfl⟩ | ⟨_, older, different⟩
    · rw [mine] at there
      cases there
      have ok := inner m same.symm
      rw [← same] at ok
      exact ok
    · rw [cells address different] at there
      exact tree.inner m j address object older there
  · intro m j address found
    change j < nextIndex (m + 1)
    rw [grows m]
    rcases lookup found with ⟨⟨same, rfl⟩, rfl⟩ | ⟨_, older, _⟩
    · have place := last m same.symm
      rw [← same] at place
      rw [if_pos same]
      omega
    · have under := tree.within m j address older
      split <;> omega
  · intro m j under reached gone
    change j < nextIndex (m + 1) at reached
    rw [setTree_tree] at gone
    rw [grows m] at reached
    split at gone
    · cases gone
    next aside =>
      apply tree.absent m j under _ gone
      split at reached
      next same =>
        have place := last m same.symm
        rw [← same] at place
        omega
      next => exact reached
  · intro m j address found below finished
    rcases lookup found with ⟨⟨same, rfl⟩, rfl⟩ | ⟨_, older, _⟩
    · rw [same, unfinished] at finished
      cases finished
    · exact tree.kept m j address older below finished

structure SameLeaves (state after : StackDistCalc) : Prop where
  verifyStack : after.verifyStack = state.verifyStack
  index : after.index = state.index
  aiMap : after.aiMap = state.aiMap
  stack : after.stack = state.stack
  leaves : live after = live state

theorem SameLeaves.trans {first second third : StackDistCalc} (early : SameLeaves first second)
    (late : SameLeaves second third) : SameLeaves first third :=
  ⟨late.verifyStack.trans early.verifyStack, late.index.trans early.index, late.aiMap.trans early.aiMap,
    late.stack.trans early.stack, late.leaves.trans early.leaves⟩

theorem addINode_same (i : Nat) : SameLeaves state (state.addINode (i + 1)) := by
  refine ⟨rfl, rfl, rfl, rfl, ?_⟩
  funext leaf
  unfold live StackDistCalc.addINode
  rw [setTree_tree, if_neg (by omega)]

def blank (index parent : Nat) : StackNode := { isLeftNode := index % 2 == 0, nodeIndex := index, parent := some parent }

theorem blank_placed {level index : Nat} (lower : level < state.treeDepth)
    (found : state.tree (level + 1) (index / 2) = some parent) : Placed state level index (blank index parent) := by
  refine ⟨rfl, rfl, by omega, ?_⟩
  intro _
  refine ⟨parent, rfl, ?_⟩
  intro other there
  rw [found] at there
  exact Option.some.inj there

theorem Grown.addINode (grown : Grown state n (i + 1)) (divides : 2 ^ (i + 1) ∣ n) (positive : 0 < n)
    (lower : i + 1 < state.treeDepth) :
    Grown (state.addINode (i + 1)) n i ∧ (Attached state → Attached (state.addINode (i + 1))) := by
  have place : state.nextIndex (i + 1) = n / 2 ^ (i + 1) := by
    rw [grown.next i (by omega), if_neg (by omega)]
    cases n with
    | zero => omega
    | succ => rw [Nat.succ_div, if_pos divides, Nat.add_sub_cancel]
  have starts : n / 2 ^ (i + 1) * 2 ^ (i + 1) = n := Nat.div_mul_cancel divides
  have above : state.nextIndex (i + 1 + 1) = n / 2 ^ (i + 1 + 1) + 1 := by
    rw [grown.next (i + 1) (by omega), if_pos (by omega)]
  obtain ⟨parent, _, found, _⟩ := grown.tree.present (by omega) (by omega) (not_done (live state) n (i + 1 + 1))
  have half : n / 2 ^ (i + 1) / 2 = n / 2 ^ (i + 1 + 1) := (div_two_pow_succ n (i + 1)).symm
  have same : SameLeaves state (state.addINode (i + 1)) := addINode_same i
  have vacant : state.tree (i + 1) (n / 2 ^ (i + 1)) = none := by
    cases entry : state.tree (i + 1) (n / 2 ^ (i + 1)) with
    | none => rfl
    | some address =>
      have under := grown.tree.within i _ address entry
      omega
  have left : n ≤ 2 * (n / 2 ^ (i + 1)) * 2 ^ i := by
    have split : 2 * (n / 2 ^ (i + 1)) * 2 ^ i = n / 2 ^ (i + 1) * 2 ^ (i + 1) := by ring
    omega
  have right : n ≤ (2 * (n / 2 ^ (i + 1)) + 1) * 2 ^ i := by
    rw [Nat.add_mul]
    omega
  have made : state.addINode (i + 1) = { state with
      nodes := (state.nodes.alloc (blank (n / 2 ^ (i + 1)) parent)).1
      nextIndex := update state.nextIndex (i + 1) (n / 2 ^ (i + 1) + 1) }.setTree (i + 1) (n / 2 ^ (i + 1))
        (some state.nodes.next) := by
    unfold StackDistCalc.addINode
    rw [above, Nat.add_sub_cancel, found, place]
    rfl
  have placed := blank_placed lower (half.symm ▸ found)
  have alone : ∀ m j, i + 1 = m + 1 → j / 2 = n / 2 ^ (i + 1) → state.tree m j = none := by
    intro m j layer child
    cases layer
    cases entry : state.tree i j with
    | none => rfl
    | some address =>
      have beyond : n ≤ j * 2 ^ i := by
        have later : 2 * (n / 2 ^ (i + 1)) ≤ j := by omega
        exact Nat.le_trans left (Nat.mul_le_mul_right _ later)
      cases i with
      | zero =>
        have recent := grown.recent j (by unfold live; rw [entry]; rfl)
        omega
      | succ i =>
        have under := grown.tree.within i j address entry
        rw [grown.next i (by omega), if_neg (by omega)] at under
        have before : j * 2 ^ (i + 1) ≤ n - 1 := (Nat.le_div_iff_mul_le (two_pow_pos _)).mp (by omega)
        omega
  have inner : ∀ m, i + 1 = m + 1 → InnerOk (live state) n m (n / 2 ^ (i + 1)) (blank (n / 2 ^ (i + 1)) parent) := by
    intro m layer
    cases layer
    exact ⟨(block_beyond grown.recent left).symm, (block_beyond grown.recent right).symm, (done_beyond left).symm,
      (done_beyond right).symm⟩
  have grows : ∀ k, update state.nextIndex (i + 1) (n / 2 ^ (i + 1) + 1) (k + 1) =
      if k + 1 = i + 1 then state.nextIndex (k + 1) + 1 else state.nextIndex (k + 1) := by
    intro k
    rw [update_apply]
    split
    next here => rw [here, place]
    next => rfl
  have tree := grown.tree.alloc made (by omega) placed vacant alone inner (not_done _ _ _) grows (fun _ _ => place.symm)
  have leaves : (fun other => live state other || (i + 1 == 0 && other == n / 2 ^ (i + 1))) = live (state.addINode (i + 1)) := by
    rw [same.leaves]
    funext other
    simp
  rw [leaves, ← same.leaves] at tree
  refine ⟨⟨grown.height, grown.room, grown.tight, ?_, tree, ?_⟩, ?_⟩
  · intro k layer
    change k + 1 ≤ state.treeDepth at layer
    rw [made]
    change update state.nextIndex (i + 1) (n / 2 ^ (i + 1) + 1) (k + 1) = _
    rw [grows k]
    by_cases here : k = i
    · subst here
      rw [if_pos rfl, if_pos (by omega), place]
    · rw [if_neg (by omega), grown.next k layer]
      by_cases upper : i + 1 < k + 1
      · rw [if_pos upper, if_pos (by omega)]
      · rw [if_neg upper, if_neg (by omega)]
  · rw [same.leaves]
    exact grown.recent
  · intro attached m j address entry below
    change m < state.treeDepth at below
    rw [made] at entry
    have looked := alloc_lookup grown.tree entry
    have kept : ∀ m j, (state.tree m j).isSome = true → ((state.addINode (i + 1)).tree m j).isSome = true := by
      intro m j there
      rw [made, setTree_tree]
      split
      · rfl
      · exact there
    apply kept
    rcases looked with ⟨⟨rfl, rfl⟩, _⟩ | ⟨_, older, _⟩
    · rw [half, found]
      rfl
    · exact attached m j address older below

theorem addINodes_ok (required : Nat → Bool) (agrees : ∀ m, m + 1 ≤ i → (required (m + 1) = true ↔ 2 ^ (m + 1) ∣ n))
    (grown : Grown state n i) (positive : 0 < n ∨ i = 0) (lower : i < state.treeDepth) :
    Grown (addINodes required i state) n 0 ∧ SameLeaves state (addINodes required i state) ∧
      (Attached state → Attached (addINodes required i state)) := by
  induction i generalizing state with
  | zero => exact ⟨grown, ⟨rfl, rfl, rfl, rfl, rfl⟩, id⟩
  | succ i ih =>
    rw [addINodes]
    have others : ∀ m, m + 1 ≤ i → (required (m + 1) = true ↔ 2 ^ (m + 1) ∣ n) := fun m _ => agrees m (by omega)
    by_cases wanted : required (i + 1) = true
    · rw [if_pos wanted]
      obtain ⟨next, attached⟩ := grown.addINode ((agrees i (Nat.le_refl _)).mp wanted) (by omega) lower
      obtain ⟨final, same, kept⟩ := ih others next (by omega) (by change i < state.treeDepth; omega)
      exact ⟨final, (addINode_same i).trans same, fun before => kept (attached before)⟩
    · rw [if_neg wanted]
      have next := grown.skip (fun divides => wanted ((agrees i (Nat.le_refl _)).mpr divides))
      exact ih others next (by omega) (by omega)

theorem isPowerOf2_iff : isPowerOf2 n = true ↔ ∃ k, n = 2 ^ k := by
  unfold isPowerOf2
  rw [and_eq_true, bne_iff_ne, beq_iff_eq]
  exact Nat.ne_zero_and_sub_one_eq_zero_iff_isPowerOfTwo

theorem Sizes.full_iff (sizes : Sizes state n) (even : n % 2 = 0) : isPowerOf2 n = true ↔ n = 2 ^ state.treeDepth := by
  rw [isPowerOf2_iff]
  constructor
  · intro ⟨k, power⟩
    have upper : k ≤ state.treeDepth := by
      apply (Nat.pow_le_pow_iff_right (by omega : 1 < 2)).mp
      rw [← power]
      exact sizes.room
    have positive : k ≠ 0 := by
      intro zero
      rw [zero] at power
      omega
    rcases sizes.tight with small | tight
    · rw [power]
      congr 1
      omega
    · rw [power] at tight
      have lower := (Nat.pow_lt_pow_iff_right (by omega : 1 < 2)).mp tight
      rw [power]
      congr 1
      omega
  · intro full
    exact ⟨_, full⟩

theorem Shape.grown (shape : Shape state n) (roomy : n ≠ 2 ^ state.treeDepth) : Grown state n (state.treeDepth - 1) := by
  have room := shape.sizes.room
  refine ⟨shape.sizes.height, by omega, ?_, ?_, shape.tree, shape.recent⟩
  · rcases shape.sizes.tight with small | tight
    · exact .inl small
    · exact .inr (by omega)
  · intro k layer
    rw [shape.sizes.next k layer]
    by_cases top : state.treeDepth - 1 < k + 1
    · have root : k + 1 = state.treeDepth := by omega
      rw [if_pos top, root, div_eq_of_lt (by omega), div_eq_of_lt (by omega)]
    · rw [if_neg top]

def crowned (state : StackDistCalc) (old : Nat) (oldRoot root : StackNode) : StackDistCalc :=
  { state with
    nodes := (state.nodes.alloc root).1.write old { oldRoot with parent := some state.nodes.next }
    treeDepth := state.treeDepth + 1
    nextIndex := update state.nextIndex (state.treeDepth + 1) 1 }.setTree (state.treeDepth + 1) 0
      (some state.nodes.next)

section Crowned
variable {view : Nat → Nat → Bool} {d old m : Nat} {oldRoot root : StackNode} {address : Nat}

theorem crowned_cells (state : StackDistCalc) (old : Nat) (oldRoot root : StackNode) (address : Nat) :
    (crowned state old oldRoot root).nodes.cell address =
      if address = old then some { oldRoot with parent := some state.nodes.next }
      else if address = state.nodes.next then some root else state.nodes.cell address := by
  change ((state.nodes.alloc root).1.write old _).cell address = _
  rw [write_cell, alloc_cell]

theorem crowned_lower (depth : state.treeDepth = d + 1) (layer : m ≤ d + 1) (j : Nat) :
    (crowned state old oldRoot root).tree m j = state.tree m j := by
  unfold crowned
  rw [setTree_tree, if_neg (by omega)]

theorem crowned_lookup (tree : Tree state n base view) (depth : state.treeDepth = d + 1)
    (found : (crowned state old oldRoot root).tree m j = some address) :
    ((m = d + 1 + 1 ∧ j = 0) ∧ address = state.nodes.next) ∨
      (m ≤ d + 1 ∧ state.tree m j = some address ∧ address ≠ state.nodes.next) := by
  unfold crowned at found
  rw [setTree_tree, depth] at found
  split at found
  next here =>
    cases found
    exact .inl ⟨here, rfl⟩
  next aside =>
    obtain ⟨layer, node, there, _⟩ := tree.placed _ _ _ found
    have before := tree.bounded _ _ there
    exact .inr ⟨by omega, found, by omega⟩

/-- The old root gets the new one for a parent, and the other nodes stay where they are. -/
theorem crowned_placed (tree : Tree state n base view) (depth : state.treeDepth = d + 1) (entry : state.tree (d + 1) 0 = some old)
    (held : state.nodes.cell old = some oldRoot) (single : ∀ j address, state.tree (d + 1) j = some address → j = 0)
    (bare : root.nodeIndex = 0 ∧ root.isLeftNode = true ∧ root.parent = none)
    (found : (crowned state old oldRoot root).tree m j = some address) : m ≤ d + 1 + 1 ∧
      ∃ node, (crowned state old oldRoot root).nodes.cell address = some node ∧ Placed (crowned state old oldRoot root) m j node := by
  have high : (crowned state old oldRoot root).treeDepth = d + 1 + 1 := congrArg (· + 1) depth
  have bound := tree.bounded _ _ held
  obtain ⟨⟨rfl, rfl⟩, rfl⟩ | ⟨layer, older, different⟩ := crowned_lookup tree depth found
  · refine ⟨Nat.le_refl _, root, ?_, bare.1, bare.2.1, fun _ => bare.2.2, ?_⟩
    · rw [crowned_cells, if_neg (by omega), if_pos rfl]
    · intro beyond
      omega
  · obtain ⟨_, node, there, sits⟩ := tree.placed _ _ _ older
    refine ⟨by omega, ?_⟩
    by_cases top : m = d + 1
    · subst top
      obtain rfl := single j address older
      cases entry.symm.trans older
      cases held.symm.trans there
      refine ⟨{ oldRoot with parent := some state.nodes.next }, by rw [crowned_cells, if_pos rfl], sits.nodeIndex,
        sits.isLeftNode, ?_, fun _ => ⟨state.nodes.next, rfl, fun other above => ?_⟩⟩
      · rw [high]
        omega
      · obtain ⟨_, same⟩ | ⟨wrong, _⟩ := crowned_lookup tree depth above
        · exact same.symm
        · omega
    · have aside : address ≠ old := by
        rintro rfl
        exact top (tree.distinct _ _ _ _ _ older entry).1
      refine ⟨node, by rw [crowned_cells, if_neg aside, if_neg different, there], sits.nodeIndex, sits.isLeftNode, ?_, fun _ => ?_⟩
      · rw [high]
        omega
      · obtain ⟨parent, linked, unique⟩ := sits.up (by omega)
        refine ⟨parent, linked, fun other above => unique other ?_⟩
        rwa [crowned_lower depth (by omega)] at above

theorem crowned_inner (tree : Tree state n base view) (depth : state.treeDepth = d + 1) (held : state.nodes.cell old = some oldRoot)
    (inner : InnerOk (view (d + 1 + 1)) n (d + 1) 0 root) (found : (crowned state old oldRoot root).tree (m + 1) j = some address)
    (there : (crowned state old oldRoot root).nodes.cell address = some node) : InnerOk (view (m + 1)) n m j node := by
  have bound := tree.bounded _ _ held
  rw [crowned_cells] at there
  obtain ⟨⟨same, rfl⟩, rfl⟩ | ⟨layer, older, different⟩ := crowned_lookup tree depth found
  · cases same
    rw [if_neg (by omega), if_pos rfl] at there
    cases there
    exact inner
  · by_cases aside : address = old
    · rw [if_pos aside] at there
      cases there
      subst aside
      have ok := tree.inner m j _ oldRoot older held
      exact ⟨ok.sumLeft, ok.sumRight, ok.discardLeft, ok.discardRight⟩
    · rw [if_neg aside, if_neg different] at there
      exact tree.inner m j address node older there

theorem crowned_tree (tree : Tree state n base view) (depth : state.treeDepth = d + 1) (entry : state.tree (d + 1) 0 = some old)
    (held : state.nodes.cell old = some oldRoot) (single : ∀ j address, state.tree (d + 1) j = some address → j = 0)
    (bare : root.nodeIndex = 0 ∧ root.isLeftNode = true ∧ root.parent = none)
    (inner : InnerOk (view (d + 1 + 1)) n (d + 1) 0 root) : Tree (crowned state old oldRoot root) n base view := by
  have nexts : ∀ k, k + 1 ≤ d + 1 → (crowned state old oldRoot root).nextIndex (k + 1) = state.nextIndex (k + 1) := by
    intro k layer
    change update state.nextIndex (state.treeDepth + 1) 1 (k + 1) = _
    rw [update_apply, if_neg (by omega)]
  have last : (crowned state old oldRoot root).nextIndex (d + 1 + 1) = 1 := by
    change update state.nextIndex (state.treeDepth + 1) 1 (d + 1 + 1) = _
    rw [update_apply, if_pos (by omega)]
  have high : (crowned state old oldRoot root).treeDepth = d + 1 + 1 := congrArg (· + 1) depth
  have fresh : old ≠ state.nodes.next := Nat.ne_of_lt (tree.bounded _ _ held)
  constructor
  · exact (tree.bounded.alloc root).write (by rw [alloc_cell, if_neg fresh]; exact held) _
  · intro i
    rw [crowned_lower depth (Nat.zero_le _)]
    exact tree.leaves i
  · intro m j m' j' address found found'
    rcases crowned_lookup tree depth found with ⟨⟨rfl, rfl⟩, rfl⟩ | ⟨_, older, different⟩
    · rcases crowned_lookup tree depth found' with ⟨⟨rfl, rfl⟩, _⟩ | ⟨_, _, different⟩
      · exact ⟨rfl, rfl⟩
      · exact absurd rfl different
    · rcases crowned_lookup tree depth found' with ⟨_, same⟩ | ⟨_, older', _⟩
      · exact absurd same different
      · exact tree.distinct _ _ _ _ _ older older'
  · intro m j address found
    rw [high]
    exact crowned_placed tree depth entry held single bare found
  · exact fun m j address node found there => crowned_inner tree depth held inner found there
  · intro m j address found
    rcases crowned_lookup tree depth found with ⟨⟨same, rfl⟩, _⟩ | ⟨layer, older, _⟩
    · cases same
      rw [last]
      omega
    · rw [nexts m layer]
      exact tree.within m j address older
  · intro m j layer reached gone
    by_cases top : m = d + 1
    · subst top
      obtain rfl : j = 0 := by omega
      unfold crowned at gone
      rw [setTree_tree, if_pos (by omega)] at gone
      cases gone
    · rw [nexts m (by omega)] at reached
      rw [crowned_lower depth (by omega)] at gone
      obtain ⟨_, finished⟩ := tree.absent m j (by omega) reached gone
      exact ⟨by omega, finished⟩
  · intro m j address found below finished
    rcases crowned_lookup tree depth found with ⟨⟨_, rfl⟩, _⟩ | ⟨layer, older, _⟩
    · rfl
    · by_cases top : m = d
      · subst top
        exact single j address older
      · exact tree.kept m j address older (by omega) finished

end Crowned

theorem addRoot_ok (shape : Shape state n) (full : n = 2 ^ state.treeDepth) :
    ∃ after, state.addRoot = .ok after ∧ after.treeDepth = state.treeDepth + 1 ∧ Grown after n state.treeDepth ∧
      SameLeaves state after ∧ (Attached state → Attached after) := by
  have height := shape.sizes.height
  obtain ⟨d, depth⟩ : ∃ d, state.treeDepth = d + 1 := ⟨state.treeDepth - 1, by omega⟩
  have positive := two_pow_pos (d + 1)
  rw [depth] at full
  have nexts := shape.sizes.next
  have single : state.nextIndex (d + 1) = 1 := by
    rw [nexts d (by omega), div_eq_of_lt (by omega)]
  have alone : ∀ j address, state.tree (d + 1) j = some address → j = 0 := by
    intro j address entry
    have under := shape.tree.within d j address entry
    omega
  cases entry : state.tree (d + 1) 0 with
  | none =>
    have below := (shape.tree.absent d 0 (by omega) (by omega) entry).1
    omega
  | some old =>
    obtain ⟨_, oldRoot, held, placed⟩ := shape.tree.placed _ _ _ entry
    have ok := shape.tree.inner _ _ _ _ entry held
    have bound := shape.tree.bounded _ _ held
    obtain ⟨root, root_eq⟩ : ∃ root : StackNode, root =
      { sumLeft := oldRoot.sumRight + oldRoot.sumLeft, discardLeft := oldRoot.discardLeft && oldRoot.discardRight } :=
      ⟨_, rfl⟩
    have beyond : n ≤ (2 * 0 + 1) * 2 ^ (d + 1) := by omega
    have inner : InnerOk (live state) n (d + 1) 0 root := by
      rw [root_eq]
      refine ⟨?_, (block_beyond shape.recent beyond).symm, ?_, (done_beyond beyond).symm⟩
      · change oldRoot.sumRight + oldRoot.sumLeft = block (live state) (d + 1) 0
        rw [ok.sumLeft, ok.sumRight, block_succ]
        omega
      · change (oldRoot.discardLeft && oldRoot.discardRight) = done (live state) n (d + 1) 0
        rw [ok.discardLeft, ok.discardRight, done_succ]
    have bare : root.nodeIndex = 0 ∧ root.isLeftNode = true ∧ root.parent = none := by
      rw [root_eq]
      exact ⟨rfl, rfl, rfl⟩
    have tree := crowned_tree shape.tree depth entry held alone bare inner
    have leaves : live (crowned state old oldRoot root) = live state := by
      funext i
      unfold live crowned
      rw [setTree_tree, if_neg (by omega)]
    have kept : ∀ m j, (state.tree m j).isSome = true → ((crowned state old oldRoot root).tree m j).isSome = true := by
      intro m j there
      unfold crowned
      rw [setTree_tree]
      split
      · rfl
      · exact there
    refine ⟨crowned state old oldRoot root, ?_, rfl, ⟨?_, ?_, ?_, ?_, ?_, ?_⟩, ⟨rfl, rfl, rfl, rfl, leaves⟩, ?_⟩
    · have linked : (state.nodes.alloc root).1.modify old ({ · with parent := some state.nodes.next }) =
          .ok ((state.nodes.alloc root).1.write old { oldRoot with parent := some state.nodes.next }) := by
        apply modify_of_cell
        rw [alloc_cell, if_neg (by omega), held]
      unfold addRoot
      rw [depth, entry]
      dsimp only
      rw [read_of_cell held, ok_bind, ← root_eq, alloc_address, linked, ok_bind]
      unfold crowned
      rw [depth]
      rfl
    · change 1 ≤ state.treeDepth + 1
      omega
    · change n < 2 ^ (state.treeDepth + 1)
      rw [depth, Nat.pow_succ]
      omega
    · refine .inr ?_
      change 2 ^ (state.treeDepth + 1 - 1) < n + 1
      rw [Nat.add_sub_cancel, depth]
      omega
    · intro k layer
      change k + 1 ≤ state.treeDepth + 1 at layer
      change update state.nextIndex (state.treeDepth + 1) 1 (k + 1) = _
      rw [update_apply]
      by_cases top : k = state.treeDepth
      · rw [if_pos (by omega), if_pos (by omega), top, div_eq_of_lt (by rw [depth, Nat.pow_succ]; omega)]
      · rw [if_neg (by omega), if_neg (by omega), nexts k (by omega)]
    · rw [leaves]
      exact tree
    · rw [leaves]
      exact shape.recent
    · intro attached m j address found below
      change m < state.treeDepth + 1 at below
      by_cases top : m = d + 1
      · subst top
        unfold crowned at found ⊢
        rw [setTree_tree, if_neg (by omega)] at found
        rw [alone j address found, setTree_tree, if_pos (by omega)]
        rfl
      · apply kept
        unfold crowned at found
        rw [setTree_tree, if_neg (by omega)] at found
        exact attached m j address found (by omega)

theorem updateTree_ok (shape : Shape state n) (counted : state.index = n) (even : n % 2 = 0) (few : n < 2 ^ 31) :
    ∃ after, state.updateTree = .ok after ∧ Grown after n 0 ∧ SameLeaves state after ∧
      (Attached state → Attached after) := by
  have full := shape.sizes.full_iff even
  unfold updateTree
  rw [counted]
  by_cases power : isPowerOf2 n = true
  · rw [if_pos power]
    obtain ⟨_, crowned, depth, grown, same, attached⟩ := addRoot_ok shape (full.mp power)
    have divides : ∀ m, m + 1 ≤ state.treeDepth → (true = true ↔ 2 ^ (m + 1) ∣ n) := by
      intro m layer
      refine ⟨fun _ => ?_, fun _ => rfl⟩
      rw [full.mp power]
      exact Nat.pow_dvd_pow 2 layer
    have positive : 0 < n := by
      rw [full.mp power]
      exact two_pow_pos _
    rw [crowned, ok_bind, depth, Nat.add_sub_cancel]
    obtain ⟨final, kept, linked⟩ := addINodes_ok (fun _ => true) divides grown (.inl positive) (by omega)
    exact ⟨_, rfl, final, same.trans kept, fun before => linked (attached before)⟩
  · rw [if_neg power]
    have grown := shape.grown (fun same => power (full.mpr same))
    have height := shape.sizes.height
    have low := shape.sizes.low few
    have divides : ∀ m, m + 1 ≤ state.treeDepth - 1 → ((n % intShift (m + 1) == 0) = true ↔ 2 ^ (m + 1) ∣ n) := by
      intro m layer
      rw [intShift_of_le (by omega), beq_iff_eq, Nat.dvd_iff_mod_eq_zero]
    have started : 0 < n ∨ state.treeDepth - 1 = 0 := by
      rcases shape.sizes.tight with small | tight
      · exact .inr (by omega)
      · exact .inl (Nat.zero_lt_of_lt tight)
    obtain ⟨final, kept, linked⟩ := addINodes_ok (fun i => n % intShift i == 0) divides grown started (by omega)
    exact ⟨_, rfl, final, kept, linked⟩

def including (leaves : Nat → Bool) (r : Nat) : Nat → Bool := fun i => leaves i || i == r

theorem change_including (leaves : Nat → Bool) (n : Nat) : Change n leaves (including leaves n) n where
  elsewhere := by
    intro i different
    rw [including, beq_false_of_ne different, Bool.or_false]
  quiet := not_done leaves n

theorem done_including (k j : Nat) : done (including leaves n) (n + 1) k j = done (including leaves n) n k j := by
  by_cases here : n / 2 ^ k = j
  · have some : 0 < block (including leaves n) k (n / 2 ^ k) := by
      apply block_pos
      rw [including, beq_self_eq_true, Bool.or_true]
    rw [← here, done, done, beq_false_of_ne (by omega), Bool.and_false, Bool.and_false]
  · unfold done
    congr 1
    rw [decide_eq_decide]
    constructor
    · intro grown
      by_contra short
      have exactly : n + 1 = (j + 1) * 2 ^ k := by omega
      apply here
      rw [Nat.div_eq_iff (two_pow_pos k)]
      rw [Nat.add_mul, Nat.one_mul] at exactly
      have positive := two_pow_pos k
      exact ⟨by omega, by omega⟩
    · intro shorter
      omega

theorem Tree.counted (tree : Tree after n base (fun _ => including leaves n)) : Tree after (n + 1) base (fun _ => including leaves n) where
  bounded := tree.bounded
  leaves := tree.leaves
  distinct := tree.distinct
  placed := tree.placed
  inner := by
    intro k j address node entry held
    obtain ⟨sumLeft, sumRight, discardLeft, discardRight⟩ := tree.inner k j address node entry held
    exact ⟨sumLeft, sumRight, discardLeft.trans (done_including _ _).symm, discardRight.trans (done_including _ _).symm⟩
  within := tree.within
  absent := by
    intro k j layer reached gone
    rw [done_including]
    exact tree.absent k j layer reached gone
  kept := by
    intro k j address entry below finished
    rw [done_including] at finished
    exact tree.kept k j address entry below finished

theorem Grown.addLeaf (grown : Grown state n 0) {nextIndex : Nat → Nat}
    (same : ∀ k, nextIndex (k + 1) = state.nextIndex (k + 1)) (found : state.tree 1 (n / 2) = some parent) :
    Tree ({ state with nodes := (state.nodes.alloc (blank n parent)).1, nextIndex }.setTree 0 n (some state.nodes.next))
      n (including (live state) n) (fun _ => live state) := by
  have vacant : state.tree 0 n = none := by
    cases entry : state.tree 0 n with
    | none => rfl
    | some =>
      have recent := grown.recent n (by unfold live; rw [entry]; rfl)
      omega
  have grows : ∀ k, nextIndex (k + 1) = if k + 1 = 0 then state.nextIndex (k + 1) + 1 else state.nextIndex (k + 1) := by
    intro k
    rw [if_neg (by omega), same k]
  generalize made : ({ state with nodes := (state.nodes.alloc (blank n parent)).1, nextIndex }.setTree 0 n
    (some state.nodes.next)) = after
  have beyond : n ≤ n * 2 ^ 0 := by omega
  have tree := grown.tree.alloc made.symm (Nat.zero_le _) (blank_placed grown.height found) vacant nofun nofun
    (done_beyond beyond) grows nofun
  exact tree

theorem Climbed.kept (ends : Climbed state after n base leaves (including leaves n) n 0) : ∀ m j, after.tree m j = state.tree m j := by
  intro m j
  rw [ends.gone, if_neg]
  intro ⟨_, position, finished⟩
  rw [position, not_done] at finished
  cases finished

variable {leaf : Nat}

theorem updateSumsLeavesToRoot_true
    (tree : Tree state n (including leaves n) (fun _ => leaves)) (height : 1 ≤ state.treeDepth) (low : state.treeDepth ≤ 31)
    (next : ∀ k, k + 1 ≤ state.treeDepth → state.nextIndex (k + 1) = n / 2 ^ (k + 1) + 1)
    (entry : state.tree 0 n = some leaf) (held : state.nodes.cell leaf = some (blank n parent)) :
    ∃ after, state.updateSumsLeavesToRoot leaf true = .ok (after, infinity) ∧
      Climbed state after n (including leaves n) leaves (including leaves n) n 0 := by
  have change := change_including leaves n
  have reach : ∀ m, m + 1 ≤ state.treeDepth → n / 2 ^ (m + 1) < state.nextIndex (m + 1) := by
    intro m layer
    rw [next m layer]
    omega
  obtain ⟨_, above, there, placed, linked, found⟩ := tree.above height entry (reach 0 height) (not_done leaves n 1)
  rw [held] at there
  cases there
  cases linked
  have started : Tree { state with nodes := state.nodes.write leaf { blank n parent with sumLeft := 1 } } n
      (including leaves n) (climbed leaves (including leaves n) 0) := by
    have sits : Placed state 0 n { blank n parent with sumLeft := 1 } :=
      ⟨placed.nodeIndex, placed.isLeftNode, placed.top, placed.up⟩
    apply (tree.writeLeaf entry sits).viewed
    intro k _
    unfold climbed
    rw [if_neg (by omega)]
  have one : block (including leaves n) 0 (n / 2 ^ 0) = 1 := by
    rw [block_zero, pow_zero, div_one]
    simp [including]
  obtain ⟨after, _, ran, _, ends⟩ := updateSum_ok change 0 started (Nat.zero_add _) height found reach low
  rw [one, not_done, pow_zero, div_one] at ran
  refine ⟨after, ?_, ends.of_nodes⟩
  rw [updateSumsLeavesToRoot, read_of_cell held, ok_bind]
  change (updateSum state.treeDepth
    { state with nodes := state.nodes.write leaf { blank n parent with sumLeft := 1 } } parent (n % 2 == 0) 1 0 0 false >>=
      fun passed => Except.ok (passed.1, infinity)) = _
  rw [ran, ok_bind]

section
variable {base : Nat → Bool} {view : Nat → Nat → Bool} {r : Nat}

section

variable (tree : Tree state n base view)
include tree

theorem Tree.step {k address : Nat} (lower : k < state.treeDepth)
    (entry : state.tree k (r / 2 ^ k) = some address) (held : state.nodes.cell address = some node)
    (path : (state.tree (k + 1) (r / 2 ^ (k + 1))).isSome = true) :
    ∃ parent, node.parent = some parent ∧ state.tree (k + 1) (r / 2 ^ (k + 1)) = some parent := by
  obtain ⟨_, _, there, placed⟩ := tree.placed _ _ _ entry
  rw [held] at there
  cases there
  obtain ⟨parent, linked, unique⟩ := placed.up lower
  obtain ⟨above, found⟩ := isSome_iff_exists.mp path
  have up : r / 2 ^ k / 2 = r / 2 ^ (k + 1) := (div_two_pow_succ r k).symm
  rw [up] at unique
  exact ⟨parent, linked, (unique above found) ▸ found⟩

theorem climb_ok (path : ∀ k, k + 1 ≤ state.treeDepth →
    (state.tree (k + 1) (r / 2 ^ (k + 1))).isSome = true) (steps : Nat) {k address : Nat} (height : k + steps = state.treeDepth)
    (entry : state.tree k (r / 2 ^ k) = some address) :
    ∃ top, state.climb steps address = .ok top ∧ state.tree state.treeDepth (r / 2 ^ state.treeDepth) = some top := by
  induction steps generalizing k address with
  | zero =>
    exact ⟨address, rfl, height ▸ entry⟩
  | succ _ ih =>
    obtain ⟨_, _, held, _⟩ := tree.placed _ _ _ entry
    obtain ⟨_, linked, found⟩ := tree.step (by omega) entry held (path k (by omega))
    obtain ⟨top, ran, root⟩ := ih (by omega) found
    refine ⟨top, ?_, root⟩
    rw [climb, read_of_cell held, ok_bind, linked]
    exact ran

theorem sanityCheckTree_ok (height : 1 ≤ state.treeDepth)
    (path : ∀ k, k + 1 ≤ state.treeDepth → (state.tree (k + 1) (r / 2 ^ (k + 1))).isSome = true)
    (entry : state.tree 0 r = some leaf) : state.sanityCheckTree leaf = .ok () := by
  have start : state.tree 0 (r / 2 ^ 0) = some leaf := by
    rw [pow_zero, div_one]
    exact entry
  obtain ⟨_, node, held, _⟩ := tree.placed _ _ _ entry
  obtain ⟨parent, linked, found⟩ := tree.step (by omega) start held (path 0 height)
  obtain ⟨top, ran, root⟩ := climb_ok tree path (state.treeDepth - 1) (by omega) found
  obtain ⟨_, _, there, placed⟩ := tree.placed _ _ _ root
  have up : leafParent node = .ok parent := by
    rw [leafParent, linked]
  rw [sanityCheckTree, read_of_cell held, ok_bind, up, ok_bind, ran, ok_bind, read_of_cell there, ok_bind, placed.top rfl]
  rfl

end

theorem getSum_ok (tree : Tree state n base (fun _ => leaves))
    (path : ∀ k, k + 1 ≤ state.treeDepth → (state.tree (k + 1) (r / 2 ^ (k + 1))).isSome = true) {turns k address : Nat}
    (dist : Nat) (height : k + turns = state.treeDepth) (started : 0 < turns)
    (entry : state.tree (k + 1) (r / 2 ^ (k + 1)) = some address) :
    ∃ total, getSum turns state address (r / 2 ^ k % 2 == 0) dist = .ok total ∧
      total + between leaves r (stop r k) = dist + between leaves r (stop r state.treeDepth) := by
  induction turns generalizing k address dist with
  | zero => omega
  | succ _ ih =>
    obtain ⟨_, node, held, placed⟩ := tree.placed _ _ _ entry
    have step := between_step dist (tree.inner _ _ _ _ entry held)
    rw [getSum, read_of_cell held, ok_bind]
    by_cases here : k + 1 = state.treeDepth
    · rw [placed.top here]
      refine ⟨_, rfl, ?_⟩
      rw [step, here]
    · obtain ⟨_, linked, found⟩ := tree.step (by omega) entry held (path (k + 1) (by omega))
      rw [linked, placed.isLeftNode]
      obtain ⟨total, ran, _⟩ := ih (if r / 2 ^ k % 2 == 0 then dist + node.sumRight else dist) (by omega) (by omega)
        found
      exact ⟨total, ran, by omega⟩

theorem getSumsLeavesToRoot_ok (tree : Tree state n base (fun _ => leaves)) (height : 1 ≤ state.treeDepth)
    (path : ∀ k, k + 1 ≤ state.treeDepth → (state.tree (k + 1) (r / 2 ^ (k + 1))).isSome = true) (entry : state.tree 0 r = some leaf) :
    state.getSumsLeavesToRoot leaf = .ok (between leaves r (stop r state.treeDepth)) := by
  have start : state.tree 0 (r / 2 ^ 0) = some leaf := by
    rw [pow_zero, div_one]
    exact entry
  obtain ⟨_, node, held, placed⟩ := tree.placed _ _ _ entry
  obtain ⟨parent, linked, found⟩ := tree.step (by omega) start held (path 0 height)
  obtain ⟨_, ran, distance⟩ := getSum_ok tree path 0 (Nat.zero_add _) height found
  have here : between leaves r (stop r 0) = 0 := between_self _ _
  rw [here, Nat.add_zero, Nat.zero_add] at distance
  rw [pow_zero, div_one, ← placed.isLeftNode, distance] at ran
  have up : leafParent node = .ok parent := by
    rw [leafParent, linked]
  rw [getSumsLeavesToRoot, read_of_cell held, ok_bind, up, ok_bind]
  exact ran

end

theorem Grown.settle (grown : Grown state n i) (odd : n % 2 = 1) : Grown state n 0 := by
  induction i with
  | zero => exact grown
  | succ i ih =>
    apply ih
    apply grown.skip
    intro divides
    have even : 2 ∣ n := Nat.dvd_trans (Dvd.intro_left (2 ^ i) rfl) divides
    omega

theorem beginPair_ok (shape : Shape state n) (counted : state.index = n) (few : n < 2 ^ 31) :
    ∃ middle, state.beginPair = .ok middle ∧ Grown middle n 0 ∧
      SameLeaves state middle ∧ (Attached state → Attached middle) := by
  unfold beginPair
  rw [counted]
  by_cases even : n % 2 = 0
  · rw [if_pos (beq_iff_eq.mpr even)]
    exact updateTree_ok shape counted even few
  · rw [if_neg (fun same => even (beq_iff_eq.mp same))]
    have roomy : n ≠ 2 ^ state.treeDepth := by
      intro full
      have height := shape.sizes.height
      have divides : 2 ∣ 2 ^ state.treeDepth := Dvd.dvd.pow (Nat.dvd_refl 2) (by omega)
      omega
    exact ⟨state, rfl, (shape.grown roomy).settle (by omega), ⟨rfl, rfl, rfl, rfl, rfl⟩, id⟩

def sprouted (state : StackDistCalc) (n parent : Nat) : StackDistCalc :=
  { state with
    nodes := (state.nodes.alloc (blank n parent)).1
    nextIndex := update state.nextIndex 0 (state.nextIndex 0 + 1) }.setTree 0 n (some state.nodes.next)

theorem Grown.sprout (grown : Grown state n 0) (few : n < 2 ^ 31) :
    ∃ parent after, state.tree 1 (state.nextIndex 1 - 1) = some parent ∧
      (sprouted state n parent).updateSumsLeavesToRoot state.nodes.next true = .ok (after, infinity) ∧
      Climbed (sprouted state n parent) after n (including (live state) n) (live state) (including (live state) n) n 0 := by
  have place : state.nextIndex 1 - 1 = n / 2 ^ (0 + 1) := by
    rw [grown.next 0 grown.height, if_pos (by omega), Nat.add_sub_cancel]
  have next : ∀ k, k + 1 ≤ state.treeDepth → state.nextIndex (k + 1) = n / 2 ^ (k + 1) + 1 := by
    intro k layer
    rw [grown.next k layer, if_pos (by omega)]
  have reached : n / 2 ^ (0 + 1) < state.nextIndex (0 + 1) := by
    rw [next 0 grown.height]
    omega
  obtain ⟨parent, _, found, _⟩ := grown.tree.present grown.height reached (not_done (live state) n 1)
  have low : state.treeDepth ≤ 31 := by
    rcases grown.tight with small | tight
    · omega
    · have bound : 2 ^ (state.treeDepth - 1) < 2 ^ 31 := by omega
      have := (Nat.pow_lt_pow_iff_right (by omega : 1 < 2)).mp bound
      omega
  have half : n / 2 ^ (0 + 1) = n / 2 := by rw [Nat.zero_add, Nat.pow_one]
  have same : ∀ k, update state.nextIndex 0 (state.nextIndex 0 + 1) (k + 1) = state.nextIndex (k + 1) := by
    intro k
    rw [update_apply, if_neg (by omega)]
  have tree := grown.addLeaf same (half ▸ found)
  have entry : (sprouted state n parent).tree 0 n = some state.nodes.next := by
    unfold sprouted
    rw [setTree_tree, if_pos ⟨rfl, rfl⟩]
  have held : (sprouted state n parent).nodes.cell state.nodes.next = some (blank n parent) := by
    change (state.nodes.alloc (blank n parent)).1.cell state.nodes.next = _
    rw [alloc_cell, if_pos rfl]
  have nexts : ∀ k, k + 1 ≤ (sprouted state n parent).treeDepth →
      (sprouted state n parent).nextIndex (k + 1) = n / 2 ^ (k + 1) + 1 := by
    intro k layer
    exact (same k).trans (next k layer)
  obtain ⟨after, ran, ends⟩ := updateSumsLeavesToRoot_true tree grown.height low nexts entry held
  exact ⟨parent, after, place.symm ▸ found, ran, ends⟩

theorem verifyAccess_ok {address : Addr} {dist : Nat} (sane : after.sanityCheckTree leaf = .ok ())
    (agrees : after.verifyStack = true → stackPosition after.stack address = dist) :
    after.verifyAccess leaf address dist = .ok { after with
      stack := if after.verifyStack then address :: after.stack.erase address else after.stack } := by
  unfold verifyAccess
  by_cases verified : after.verifyStack = true
  · rw [if_pos verified, if_pos verified, sane, ok_bind]
    unfold verifyStackDist
    simp only [agrees verified, if_true, bne_self_eq_false]
    rfl
  · rw [if_neg verified, if_neg verified]

theorem addLeaf_ok (shape : Shape state n) (counted : state.index = n) (few : n < 2 ^ 31) {address : Addr} {dist : Nat}
    (agrees : state.verifyStack = true → stackPosition state.stack address = dist) :
    ∃ after, state.addLeaf address dist = .ok after ∧ Shape after (n + 1) ∧ after.index = n + 1 ∧
      after.verifyStack = state.verifyStack ∧ after.aiMap = state.aiMap ∧
      live after = including (live state) n ∧
      after.stack = (if state.verifyStack then address :: state.stack.erase address else state.stack) ∧
      (Attached state → Attached after) := by
  obtain ⟨middle, ready, grown, same, attached⟩ := beginPair_ok shape counted few
  obtain ⟨parent, grew, found, ran, ends⟩ := grown.sprout few
  have depth : grew.treeDepth = middle.treeDepth := ends.same.treeDepth
  have counted' : grew.index = n := ends.same.index.trans (same.index.trans counted)
  have verified : grew.verifyStack = state.verifyStack := ends.same.verifyStack.trans same.verifyStack
  have stacked : grew.stack = state.stack := ends.same.stack.trans same.stack
  have leaves : live grew = including (live state) n := by
    rw [← same.leaves]
    funext i
    exact ends.tree.leaves i
  have nexts : ∀ k, k + 1 ≤ middle.treeDepth → grew.nextIndex (k + 1) = n / 2 ^ (k + 1) + 1 := by
    intro k layer
    rw [ends.same.nextIndex]
    change update middle.nextIndex 0 (middle.nextIndex 0 + 1) (k + 1) = _
    rw [update_apply, if_neg (by omega), grown.next k layer, if_pos (by omega)]
  have tree : Tree grew n (including (live state) n) (fun _ => including (live state) n) := by
    rw [← same.leaves]
    apply ends.tree.viewed
    intro k layer
    unfold climbed
    rw [ends.same.treeDepth] at layer
    rw [if_pos layer]
  have path : ∀ k, k + 1 ≤ grew.treeDepth → (grew.tree (k + 1) (n / 2 ^ (k + 1))).isSome = true := by
    intro k layer
    obtain ⟨address, _, entry, _⟩ := tree.present layer (by rw [nexts k (depth ▸ layer)]; omega) (not_done _ n (k + 1))
    rw [entry]
    rfl
  have entry : grew.tree 0 n = some middle.nodes.next := by
    rw [ends.kept]
    unfold sprouted
    rw [setTree_tree, if_pos ⟨rfl, rfl⟩]
  have sane := sanityCheckTree_ok tree (by rw [depth]; exact grown.height) path entry
  have agreed : grew.verifyStack = true → stackPosition grew.stack address = dist := by
    rw [verified, stacked]
    exact agrees
  have checked := verifyAccess_ok sane agreed
  rw [verified, stacked] at checked
  refine ⟨{ grew with
    stack := if state.verifyStack then address :: state.stack.erase address else state.stack
    index := grew.index + 1 }, ?_, ⟨⟨?_, ?_, ?_, ?_⟩, ?_, ?_⟩, ?_, verified, ends.same.aiMap.trans same.aiMap, leaves, rfl, ?_⟩
  · have index : middle.index = n := same.index.trans counted
    subst index
    unfold addLeaf
    rw [ready, ok_bind, found]
    change (updateSumsLeavesToRoot (sprouted middle middle.index parent) middle.nodes.next true >>= _) = _
    rw [ran, ok_bind]
    dsimp only
    rw [checked, ok_bind, verified]
    rfl
  · change 1 ≤ grew.treeDepth
    rw [depth]
    exact grown.height
  · change n + 1 ≤ 2 ^ grew.treeDepth
    rw [depth]
    exact grown.room
  · change grew.treeDepth = 1 ∨ 2 ^ (grew.treeDepth - 1) < n + 1
    rw [depth]
    exact grown.tight
  · intro k layer
    change k + 1 ≤ grew.treeDepth at layer
    rw [depth] at layer
    rw [Nat.add_sub_cancel]
    exact nexts k layer
  · change Tree _ (n + 1) (live grew) (fun _ => live grew)
    rw [leaves]
    exact tree.counted.moved rfl rfl rfl rfl
  · intro i there
    change live grew i = true at there
    rw [leaves, including, Bool.or_eq_true, beq_iff_eq] at there
    rcases there with older | newest
    · have before := shape.recent i older
      omega
    · omega
  · exact congrArg (· + 1) counted'
  · intro before k j other found below
    change grew.tree k j = some other at found
    change k < grew.treeDepth at below
    change (grew.tree (k + 1) (j / 2)).isSome = true
    rw [ends.kept] at found
    rw [depth] at below
    by_cases new : k = 0 ∧ j = n
    · obtain ⟨rfl, rfl⟩ := new
      have up := path 0 (by rw [depth]; exact grown.height)
      exact up
    · unfold sprouted at found
      rw [setTree_tree, if_neg new] at found
      rw [ends.kept]
      unfold sprouted
      rw [setTree_tree, if_neg (by omega)]
      exact attached before k j other found below

end

/-- The map from addresses to leaves says the same as the stack: later leaves belong
to addresses nearer to the top. -/
structure Ordered (aiMap : Addr → Option Nat) (leaves : Nat → Bool) (stack : LruStack) : Prop where
  owned : ∀ a i, aiMap a = some i → leaves i = true
  owner : ∀ i, leaves i = true → ∃ a, aiMap a = some i
  injective : ∀ a b i, aiMap a = some i → aiMap b = some i → a = b
  listed : ∀ a, a ∈ stack ↔ (aiMap a).isSome = true
  sorted : stack.Pairwise fun a b => ∀ i j, aiMap a = some i → aiMap b = some j → j < i

section
variable {aiMap : Addr → Option Nat} {leaves : Nat → Bool} {stack : LruStack} {a : Addr} {r n : Nat}

theorem Ordered.nodup (ordered : Ordered aiMap leaves stack) : stack.Nodup := by
  apply ordered.sorted.imp_of_mem
  intro x y member _ later same
  subst same
  obtain ⟨i, held⟩ := isSome_iff_exists.mp ((ordered.listed x).mp member)
  exact Nat.lt_irrefl i (later i i held held)

theorem Ordered.between_eq (ordered : Ordered aiMap leaves stack) (held : aiMap a = some r) {limit : Nat}
    (recent : ∀ i, leaves i = true → i < limit) : between leaves r limit = stack.idxOf a := by
  have member : a ∈ stack := by
    rw [ordered.listed, held]
    rfl
  obtain ⟨before, _, split, fresh⟩ := eq_append_cons_of_mem member
  have sorted := ordered.sorted
  rw [split, pairwise_append, pairwise_cons] at sorted
  obtain ⟨inside, ⟨lower, _⟩, across⟩ := sorted
  have known : ∀ b ∈ before, ∃ i, aiMap b = some i := by
    intro b early
    apply isSome_iff_exists.mp
    rw [← ordered.listed, split]
    exact mem_append_left _ early
  have indices : (before.map fun b => (aiMap b).getD 0).Nodup := by
    rw [List.Nodup, pairwise_map]
    apply inside.imp_of_mem
    intro x y first second later same
    obtain ⟨i, xs⟩ := known x first
    obtain ⟨j, ys⟩ := known y second
    have less := later i j xs ys
    rw [xs, ys, getD_some, getD_some] at same
    omega
  have same : ((List.range' (r + 1) (limit - (r + 1))).filter leaves).Perm (before.map fun b => (aiMap b).getD 0) := by
    rw [perm_ext_iff_of_nodup (List.Pairwise.filter _ nodup_range') indices]
    intro i
    rw [mem_filter, mem_range'_1, List.mem_map]
    constructor
    · intro ⟨⟨after, _⟩, there⟩
      obtain ⟨b, owns⟩ := ordered.owner i there
      refine ⟨b, ?_, by rw [owns, getD_some]⟩
      have listed : b ∈ stack := by
        rw [ordered.listed, owns]
        rfl
      rw [split, mem_append, mem_cons] at listed
      rcases listed with early | rfl | late
      · exact early
      · rw [held] at owns
        cases owns
        omega
      · have less := lower b late r i held owns
        omega
    · intro ⟨b, early, index⟩
      obtain ⟨j, owns⟩ := known b early
      rw [owns, getD_some] at index
      subst index
      have there := ordered.owned b j owns
      have bound := recent j there
      have later := across b early a mem_cons_self j r owns held
      exact ⟨⟨by omega, by omega⟩, there⟩
  unfold between
  rw [countP_eq_length_filter, same.length_eq, length_map, split, idxOf_append_of_notMem fresh, idxOf_cons_self, Nat.add_zero]

def forgotten (aiMap : Addr → Option Nat) (leaves : Nat → Bool) (a : Addr) : Nat → Bool :=
  match aiMap a with
  | some r => without leaves r
  | none => leaves

theorem forgotten_iff {i : Nat} : forgotten aiMap leaves a i = true ↔ leaves i = true ∧ aiMap a ≠ some i := by
  unfold forgotten
  cases aiMap a with
  | none => simp
  | some =>
    simp only [without, and_eq_true, bne_iff_ne, ne_eq, Option.some.injEq]
    constructor
    · intro ⟨there, different⟩
      exact ⟨there, fun same => different same.symm⟩
    · intro ⟨there, different⟩
      exact ⟨there, fun same => different same.symm⟩

theorem Ordered.removed (ordered : Ordered aiMap leaves stack) :
    Ordered (update aiMap a none) (forgotten aiMap leaves a) (stack.erase a) where
  owned := by
    intro b i held
    rw [update_apply] at held
    split at held
    · cases held
    next different =>
      rw [forgotten_iff]
      exact ⟨ordered.owned b i held, fun other => different (ordered.injective b a i held other)⟩
  owner := by
    intro i there
    rw [forgotten_iff] at there
    obtain ⟨b, held⟩ := ordered.owner i there.1
    refine ⟨b, ?_⟩
    rw [update_apply, if_neg, held]
    intro same
    rw [same] at held
    exact there.2 held
  injective := by
    intro b c i first second
    rw [update_apply] at first second
    split at first
    · cases first
    split at second
    · cases second
    · exact ordered.injective b c i first second
  listed := by
    intro b
    rw [ordered.nodup.mem_erase_iff, ordered.listed, update_apply]
    by_cases same : b = a
    · simp [same]
    · simp [same]
  sorted := by
    apply (ordered.sorted.sublist List.erase_sublist).imp_of_mem
    intro b c _ _ later i j first second
    rw [update_apply] at first second
    split at first
    · cases first
    split at second
    · cases second
    · exact later i j first second

theorem Ordered.pushed (ordered : Ordered aiMap leaves stack) (absent : aiMap a = none)
    (recent : ∀ i, leaves i = true → i < n) :
    Ordered (update aiMap a (some n)) (including leaves n) (a :: stack) where
  owned := by
    intro b i held
    rw [update_apply] at held
    rw [including, Bool.or_eq_true, beq_iff_eq]
    split at held
    · cases held
      exact .inr rfl
    · exact .inl (ordered.owned b i held)
  owner := by
    intro i there
    rw [including, Bool.or_eq_true, beq_iff_eq] at there
    rcases there with older | newest
    · obtain ⟨b, held⟩ := ordered.owner i older
      refine ⟨b, ?_⟩
      rw [update_apply, if_neg, held]
      intro same
      rw [same, absent] at held
      cases held
    · exact ⟨a, by rw [update_apply, if_pos rfl, newest]⟩
  injective := by
    have older : ∀ b, aiMap b ≠ some n := by
      intro b held
      exact Nat.lt_irrefl n (recent n (ordered.owned b n held))
    intro b c i first second
    rw [update_apply] at first second
    split at first
    next here =>
      cases first
      split at second
      next there => rw [here, there]
      next => exact absurd second (older c)
    next =>
      split at second
      next =>
        cases second
        exact absurd first (older b)
      next => exact ordered.injective b c i first second
  listed := by
    intro b
    rw [mem_cons, ordered.listed, update_apply]
    by_cases same : b = a
    · simp [same]
    · simp [same]
  sorted := by
    rw [pairwise_cons]
    constructor
    · intro b member i j first second
      rw [update_apply, if_pos rfl] at first
      cases first
      rw [update_apply] at second
      split at second
      next same =>
        rw [ordered.listed, same, absent] at member
        cases member
      next => exact recent j (ordered.owned b j second)
    · apply ordered.sorted.imp_of_mem
      intro b c first second later i j held held'
      rw [update_apply] at held held'
      split at held
      next same =>
        rw [ordered.listed, same, absent] at first
        cases first
      split at held'
      next same =>
        rw [ordered.listed, same, absent] at second
        cases second
      · exact later i j held held'

end

/-- The list kept to verify holds the stack. -/
structure Shadowed (debug : List Addr) (aiMap : Addr → Option Nat) (stack : LruStack) : Prop where
  nodup : debug.Nodup
  filtered : stack = debug.filter fun a => (aiMap a).isSome

section
variable {debug : List Addr} {aiMap : Addr → Option Nat} {stack : LruStack} {a : Addr}

section

variable (shadowed : Shadowed debug aiMap stack)
include shadowed

theorem Shadowed.position (settled : a ∈ debug → ∀ other ∈ debug.take (debug.idxOf a + 1), (aiMap other).isSome = true) :
    stackPosition debug a = LruStack.distance stack a := by
  unfold stackPosition LruStack.distance
  rw [shadowed.filtered]
  by_cases member : a ∈ debug
  · have above := settled member
    obtain ⟨before, behind, split, fresh⟩ := eq_append_cons_of_mem member
    have position : debug.idxOf a = before.length := by
      rw [split, idxOf_append_of_notMem fresh, idxOf_cons_self, Nat.add_zero]
    have first : debug.take (debug.idxOf a + 1) = before ++ [a] := by
      rw [position, split, take_append, take_of_length_le (by omega), Nat.add_sub_cancel_left]
      rfl
    rw [first] at above
    have all : before.filter (fun other => (aiMap other).isSome) = before := by
      rw [filter_eq_self]
      intro other early
      exact above other (mem_append_left _ early)
    have mine : (aiMap a).isSome = true := above a (mem_append_cons_self)
    have kept : debug.filter (fun other => (aiMap other).isSome) =
        before ++ a :: behind.filter (fun other => (aiMap other).isSome) := by
      rw [split, filter_append, all, filter_cons, if_pos mine]
    have member' : a ∈ before ++ a :: behind.filter (fun other => (aiMap other).isSome) :=
      mem_append_cons_self
    rw [kept, if_pos member, if_pos member', position, idxOf_append_of_notMem fresh, idxOf_cons_self, Nat.add_zero]
  · have absent : a ∉ debug.filter (fun other => (aiMap other).isSome) := fun there => member (mem_of_mem_filter there)
    rw [if_neg member, if_neg absent]

theorem Shadowed.others (entry : Option Nat) :
    stack.erase a = (debug.erase a).filter fun other => (update aiMap a entry other).isSome := by
  have nodup : stack.Nodup := by
    rw [shadowed.filtered]
    exact List.Pairwise.filter _ shadowed.nodup
  rw [nodup.erase_eq_filter, shadowed.nodup.erase_eq_filter, shadowed.filtered, List.filter_filter, List.filter_filter]
  apply filter_congr
  intro other _
  by_cases same : other = a
  · simp [same]
  · rw [update_apply, if_neg same, Bool.and_comm]

theorem Shadowed.removed : Shadowed debug (update aiMap a none) (stack.erase a) := by
  refine ⟨shadowed.nodup, ?_⟩
  rw [shadowed.others none, shadowed.nodup.erase_eq_filter, List.filter_filter]
  apply filter_congr
  intro other _
  by_cases same : other = a
  · simp [same]
  · rw [(bne_iff_ne.mpr same : (other != a) = true), Bool.and_true]

theorem Shadowed.pushed (n : Nat) : Shadowed (a :: debug.erase a) (update aiMap a (some n)) (a :: stack.erase a) := by
  refine ⟨?_, ?_⟩
  · rw [nodup_cons]
    exact ⟨shadowed.nodup.not_mem_erase, shadowed.nodup.erase a⟩
  · have mine : (update aiMap a (some n) a).isSome = true := by
      rw [update_self]
      rfl
    rw [filter_cons, if_pos mine, shadowed.others (some n)]

end

end

def Settled (state : StackDistCalc) (address : Addr) : Prop :=
  state.verifyStack = true → address ∈ state.stack →
    ∀ other ∈ state.stack.take (state.stack.idxOf address + 1), (state.aiMap other).isSome = true

/-- No old root that was left behind empty loses the node above it with this leaf. -/
def Sheltered (state : StackDistCalc) (r : Nat) : Prop :=
  ∀ k, 1 ≤ k → k + 1 < state.treeDepth → (state.tree k 0).isSome = true → (∀ i, i < 2 ^ k → state.tree 0 i = none) →
    ∃ i, i < 2 ^ (k + 1) ∧ i ≠ r ∧ (state.tree 0 i).isSome = true

def Sound (state : StackDistCalc) : StackCall → Prop
  | .update address true => Settled state address ∧ ∀ r, state.aiMap address = some r → Sheltered state r
  | .update address false => ∀ r, state.aiMap address = some r → Sheltered state r
  | .inspect address _ => Settled state address

/-- The invariant: live leaves in order are the LRU stack. -/
structure Ok (state : StackDistCalc) (stack : LruStack) : Prop where
  shape : Shape state state.index
  attached : Attached state
  ordered : Ordered state.aiMap (live state) stack
  shadowed : state.verifyStack = true → Shadowed state.stack state.aiMap stack

section
variable {state after : StackDistCalc} {stack : LruStack} {n r leaf : Nat} {a : Addr}

theorem Attached.discarded (attached : Attached state) (shape : Shape state n) (depth : after.treeDepth = state.treeDepth)
    (sheltered : Sheltered state r) (gone : ∀ m j, after.tree m j =
      if (m = 0 ∧ j = r) ∨ ((0 < m ∧ m < state.treeDepth) ∧ j = r / 2 ^ m ∧
        done (without (live state) r) n m j = true) then none else state.tree m j) : Attached after := by
  intro k j address found below
  rw [depth] at below
  rw [gone] at found ⊢
  split at found
  · cases found
  next stays =>
    have up := attached k j address found below
    rw [if_neg]
    · exact up
    intro either
    rcases either with leaf | ⟨⟨_, lower⟩, path, finished⟩
    · omega
    have mine : done (without (live state) r) n k j = true := by
      rw [done_succ, and_eq_true] at finished
      rcases Nat.mod_two_eq_zero_or_one j with even | odd
      · rw [(by omega : j = 2 * (j / 2))]
        exact finished.1
      · rw [(by omega : j = 2 * (j / 2) + 1)]
        exact finished.2
    cases k with
    | zero =>
      have empty := (done_iff.mp mine).2
      rw [block_zero] at empty
      have there : without (live state) r j = true := by
        unfold without live
        rw [found, (bne_iff_ne.mpr (fun same => stays (.inl ⟨rfl, same⟩)) : (j != r) = true)]
        rfl
      rw [if_pos there] at empty
      cases empty
    | succ k =>
      by_cases here : j = r / 2 ^ (k + 1)
      · exact stays (.inr ⟨⟨by omega, below⟩, here, mine⟩)
      have before : done (live state) n (k + 1) j = true := by
        rw [← mine]
        apply done_congr
        intro i inside
        have aside : i ≠ r := fun same => here (same ▸ inside.symm)
        unfold without
        rw [(bne_iff_ne.mpr aside : (i != r) = true), Bool.and_true]
      have first := shape.tree.kept k j address found below before
      subst first
      have empty : ∀ i, i < 2 ^ (k + 1) → state.tree 0 i = none := by
        intro i inside
        have dead := block_eq_zero.mp (done_iff.mp before).2 i (div_eq_of_lt inside)
        exact isSome_eq_false_iff.mp dead |> isNone_iff_eq_none.mp
      obtain ⟨i, inside, aside, there⟩ := sheltered (k + 1) (by omega) lower (by rw [found]; rfl) empty
      have dead := block_eq_zero.mp (done_iff.mp finished).2 i (div_eq_of_lt inside)
      unfold without live at dead
      rw [there, (bne_iff_ne.mpr aside : (i != r) = true)] at dead
      cases dead

theorem Ok.between_eq (ok : Ok state stack) (held : state.aiMap a = some r) :
    between (live state) r (stop r state.treeDepth) = LruStack.distance stack a := by
  have there := ok.ordered.owned a r held
  have inside := ok.shape.recent r there
  have room := ok.shape.sizes.room
  have top : stop r state.treeDepth = 2 ^ state.treeDepth := by
    unfold stop
    rw [div_eq_of_lt (by omega), Nat.zero_add, Nat.one_mul]
  have member : a ∈ stack := by
    rw [ok.ordered.listed, held]
    rfl
  unfold LruStack.distance
  rw [top, if_pos member]
  apply ok.ordered.between_eq held
  intro i present
  have before := ok.shape.recent i present
  omega

theorem Ok.distance_none (ok : Ok state stack) (absent : state.aiMap a = none) : LruStack.distance stack a = infinity := by
  unfold LruStack.distance
  rw [if_neg]
  rw [ok.ordered.listed, absent]
  exact Bool.false_ne_true

theorem Shape.moved (shape : Shape state n) (nodes : after.nodes = state.nodes) (entries : after.tree = state.tree)
    (depth : after.treeDepth = state.treeDepth) (next : after.nextIndex = state.nextIndex) : Shape after n := by
  have leaves : live after = live state := by
    unfold live
    rw [entries]
  obtain ⟨⟨height, room, tight, nexts⟩, tree, recent⟩ := shape
  refine ⟨⟨?_, ?_, ?_, ?_⟩, ?_, ?_⟩
  · rw [depth]
    exact height
  · rw [depth]
    exact room
  · rw [depth]
    exact tight
  · rw [depth, next]
    exact nexts
  · rw [leaves]
    exact tree.moved nodes entries depth next
  · rw [leaves]
    exact recent

section

variable (ok : Ok state stack)
include ok

theorem Ok.forget (few : state.index < 2 ^ 31) (entry : Option Nat) (sheltered : ∀ r, state.aiMap a = some r → Sheltered state r) :
    ∃ middle mark, discardFound { state with aiMap := update state.aiMap a entry } (state.aiMap a) =
        .ok (middle, LruStack.distance stack a, mark) ∧
      SameBut { state with aiMap := update state.aiMap a entry } middle ∧ Shape middle state.index ∧
      Attached middle ∧ live middle = forgotten state.aiMap (live state) a := by
  have shape : Shape { state with aiMap := update state.aiMap a entry } state.index :=
    ok.shape.moved rfl rfl rfl rfl
  cases held : state.aiMap a with
  | none =>
    refine ⟨{ state with aiMap := update state.aiMap a entry }, false, ?_, ⟨rfl, rfl, rfl, rfl, rfl, rfl⟩,
      shape, ok.attached, ?_⟩
    · rw [ok.distance_none held]
      rfl
    · unfold forgotten
      rw [held]
      rfl
  | some r =>
    obtain ⟨_, there⟩ := isSome_iff_exists.mp (ok.ordered.owned a r held)
    obtain ⟨middle, mark, ran, same, shape', leaves, gone⟩ := discardLeaf_ok shape there few
    have distance := ok.between_eq held
    refine ⟨middle, mark, ?_, same, shape', ?_, ?_⟩
    · rw [← distance]
      exact ran
    · exact ok.attached.discarded ok.shape same.treeDepth (sheltered r held) gone
    · unfold forgotten
      rw [held]
      exact leaves

theorem Ok.removed (few : state.index < 2 ^ 31) (sheltered : ∀ r, state.aiMap a = some r → Sheltered state r) :
    ∃ after mark, state.calcStackDistAndUpdate a false = .ok (after, LruStack.distance stack a, mark) ∧
      Ok after (stack.erase a) ∧ after.index = state.index := by
  obtain ⟨after, mark, ran, same, shape, attached, leaves⟩ := ok.forget few none sheltered
  have index : after.index = state.index := same.index
  refine ⟨after, mark, ?_, ⟨?_, attached, ?_, ?_⟩, index⟩
  · unfold calcStackDistAndUpdate
    dsimp only
    rw [if_neg Bool.false_ne_true, ran, ok_bind]
    rfl
  · rw [index]
    exact shape
  · rw [same.aiMap, leaves]
    exact ok.ordered.removed
  · intro verified
    rw [same.verifyStack] at verified
    rw [same.aiMap, same.stack]
    exact (ok.shadowed verified).removed

theorem Ok.pushed (few : state.index < 2 ^ 31) (settled : Settled state a)
    (sheltered : ∀ r, state.aiMap a = some r → Sheltered state r) :
    ∃ after mark, state.calcStackDistAndUpdate a true = .ok (after, LruStack.distance stack a, mark) ∧
      Ok after (a :: stack.erase a) ∧ after.index = state.index + 1 := by
  obtain ⟨middle, mark, ran, same, shape, attached, leaves⟩ := ok.forget few (some state.index) sheltered
  have agrees : middle.verifyStack = true → stackPosition middle.stack a = LruStack.distance stack a := by
    rw [same.verifyStack, same.stack]
    intro verified
    exact (ok.shadowed verified).position (settled verified)
  obtain ⟨after, added, shape', index, verify, entries, grown, debug, attached'⟩ := addLeaf_ok shape same.index few agrees
  refine ⟨after, mark, ?_, ⟨?_, attached' attached, ?_, ?_⟩, index⟩
  · unfold calcStackDistAndUpdate
    dsimp only
    rw [if_pos rfl, ran, ok_bind]
    rw [added, ok_bind]
    rfl
  · rw [index]
    exact shape'
  · have absent : update state.aiMap a none a = none := update_self ..
    have recent : ∀ i, forgotten state.aiMap (live state) a i = true → i < state.index := by
      rw [← leaves]
      exact shape.recent
    have ordered := ok.ordered.removed.pushed absent recent
    rw [update_idem] at ordered
    rw [entries, same.aiMap, grown, leaves]
    exact ordered
  · intro verified
    rw [verify, same.verifyStack] at verified
    have shadowed := (ok.shadowed verified).pushed (a := a) state.index
    rw [entries, same.aiMap, debug, same.verifyStack, same.stack, if_pos verified]
    exact shadowed

theorem Ok.inspected (a : Addr) (mark : Bool) :
    ∃ after old, state.inspect a mark = .ok (after, LruStack.distance stack a, old) ∧ Ok after stack ∧
      after.index = state.index ∧ after.stack = state.stack ∧ after.verifyStack = state.verifyStack ∧
      after.aiMap = state.aiMap := by
  unfold inspect
  cases held : state.aiMap a with
  | none =>
    refine ⟨state, false, ?_, ok, rfl, rfl, rfl, rfl⟩
    rw [ok.distance_none held]
  | some r =>
    obtain ⟨leaf, there⟩ := isSome_iff_exists.mp (ok.ordered.owned a r held)
    obtain ⟨_, node, cell, placed⟩ := ok.shape.tree.placed _ _ _ there
    have sits : Placed state 0 r { node with isMarked := mark } :=
      ⟨placed.nodeIndex, placed.isLeftNode, placed.top, placed.up⟩
    have tree := ok.shape.tree.writeLeaf there sits
    have inside := ok.shape.recent r (ok.ordered.owned a r held)
    have path : ∀ k, k + 1 ≤ state.treeDepth → (state.tree (k + 1) (r / 2 ^ (k + 1))).isSome = true := by
      intro k layer
      have quiet := (change_without (n := state.index) (ok.ordered.owned a r held)).quiet (k + 1)
      obtain ⟨_, _, entry, _⟩ := ok.shape.tree.present layer (ok.shape.sizes.reach inside k layer) quiet
      rw [entry]
      rfl
    have summed := getSumsLeavesToRoot_ok tree ok.shape.sizes.height path there
    have distance := ok.between_eq held
    refine ⟨{ state with nodes := state.nodes.write leaf { node with isMarked := mark } }, node.isMarked, ?_,
      ⟨⟨?_, tree, ok.shape.recent⟩, ok.attached, ok.ordered, ok.shadowed⟩, rfl, rfl, rfl, rfl⟩
    · dsimp only
      rw [there]
      dsimp only
      rw [read_of_cell cell, ok_bind, summed, ok_bind, ← distance]
      rfl
    · obtain ⟨height, room, tight, next⟩ := ok.shape.sizes
      exact ⟨height, room, tight, next⟩

theorem Ok.asked (settled : Settled state a) (mark : Bool) :
    ∃ after old, state.calcStackDist a mark = .ok (after, LruStack.distance stack a, old) ∧ Ok after stack ∧
      after.index = state.index := by
  obtain ⟨after, old, ran, kept, index, debug, verify, _⟩ := ok.inspected a mark
  refine ⟨after, old, ?_, kept, index⟩
  unfold calcStackDist
  rw [ran, ok_bind]
  dsimp only
  by_cases verified : after.verifyStack = true
  · rw [if_pos verified]
    rw [verify] at verified
    have agrees := (ok.shadowed verified).position (settled verified)
    unfold verifyStackDist
    rw [debug, agrees]
    simp only [Bool.false_eq_true, if_false, bne_self_eq_false]
    rfl
  · rw [if_neg verified]
    rfl

theorem step_ok (few : state.index < 2 ^ 31) {call : StackCall} (sound : Sound state call) :
    ∃ after mark, state.step call = .ok (after, [((LruStack.apply stack call).1, mark)]) ∧
      Ok after (LruStack.apply stack call).2 ∧ after.index ≤ state.index + 1 := by
  unfold step
  cases call with
  | inspect _ mark =>
    obtain ⟨after, old, ran, kept, index⟩ := ok.asked sound mark
    exact ⟨after, old, by dsimp only; rw [ran]; rfl, kept, by omega⟩
  | update _ addNewNode =>
    cases addNewNode with
    | false =>
      obtain ⟨after, mark, ran, kept, index⟩ := ok.removed few sound
      exact ⟨after, mark, by dsimp only; rw [ran]; rfl, kept, by omega⟩
    | true =>
      obtain ⟨after, mark, ran, kept, index⟩ := ok.pushed few sound.1 sound.2
      exact ⟨after, mark, by dsimp only; rw [ran]; rfl, kept, by omega⟩

theorem run_ok {calls : List StackCall} (few : state.index + calls.length < 2 ^ 31)
    (sound : Each step Sound state calls) :
    ∃ final labels, run step state calls = .ok (final, labels) ∧
      labels.map (·.1) = LruStack.distances stack calls ∧ Ok final (LruStack.after stack calls) := by
  induction calls generalizing state stack with
  | nil => exact ⟨state, [], rfl, rfl, ok⟩
  | cons call _ ih =>
    rw [length_cons] at few
    obtain ⟨after, mark, taken, kept, index⟩ := step_ok ok (by omega) sound.1
    obtain ⟨final, labels, ran, distances, ends⟩ := ih kept (by omega) (sound.cons taken)
    refine ⟨final, ((LruStack.apply stack call).1, mark) :: labels, ?_, ?_, ends⟩
    · exact run_cons.mpr ⟨after, _, labels, taken, ran, rfl⟩
    · rw [map_cons, distances]
      rfl

end

end

/-- The tree as it should be between calls: every node is there and hangs from the
node above it, up to the root, and its sums count the leaves on either side. -/
structure Faithful (state : StackDistCalc) : Prop where
  linked : ∀ k j address, state.tree k j = some address → k ≤ state.treeDepth ∧ ∃ node,
    state.nodes.cell address = some node ∧ node.isLeftNode = (j % 2 == 0) ∧
      node.parent = if k < state.treeDepth then state.tree (k + 1) (j / 2) else none
  attached : ∀ k j address, state.tree k j = some address → k < state.treeDepth →
    (state.tree (k + 1) (j / 2)).isSome = true
  sums : ∀ k j address node, state.tree (k + 1) j = some address → state.nodes.cell address = some node →
    node.sumLeft = block (live state) k (2 * j) ∧ node.sumRight = block (live state) k (2 * j + 1)

end ImcGem5.Mem.Proofs.StackDist
