import ImcGem5.Base.Trie
import ImcGem5.Lib.Prefixes

/-! The links of the trie. The invariant is local: it speaks of a node, its kids and its
parent. The operations are made of five surgeries on the tree, and each surgery is
looked at from the nodes it touches. -/

namespace ImcGem5.Base.Proofs.Trie
open Lib List Heap

variable {w : Nat} {V : Type} {node after kid kidNode : TrieNode w V} {trie : Trie w V} {address : Nat} {leg leg' : Bool}

def width (node : TrieNode w V) : Nat := maskWidth node.mask

/-- The mask is a prefix that holds the key. -/
structure Shape (node : TrieNode w V) : Prop where
  short : width node ≤ w
  mask : node.mask = prefixMask w (width node)
  key : node.key &&& node.mask = node.key

/-- The kid has a longer prefix that agrees. -/
structure Extends (node kid : TrieNode w V) : Prop where
  longer : width node < width kid
  agree : Agree (width node) kid.key node.key

/-- Kids point back and extend the node, each its own way. -/
structure Local (trie : Trie w V) (address : Nat) (node : TrieNode w V) : Prop where
  shape : Shape node
  kids : ∀ leg kid, node.kid leg = some kid →
    ∃ kidNode, trie.cell kid = some kidNode ∧ kidNode.parent = some address ∧ Extends node kidNode
  filled : node.kid0 = none → node.kid1 = none
  split : ∀ first second firstNode secondNode, node.kid0 = some first → node.kid1 = some second →
    trie.cell first = some firstNode → trie.cell second = some secondNode →
    firstNode.key.getMsbD (width node) ≠ secondNode.key.getMsbD (width node)
  parent : address ≠ Trie.head → ∃ parent parentNode leg, node.parent = some parent ∧
    trie.cell parent = some parentNode ∧ parentNode.kid leg = some address

/-- A tree below the head. -/
structure Linked (trie : Trie w V) : Prop where
  bounded : trie.Bounded
  head : ∃ node, trie.cell Trie.head = some node ∧ node.parent = none ∧ node.value = none ∧ width node = 0
  nodes : ∀ address node, trie.cell address = some node → Local trie address node

def Useful (address : Nat) (node : TrieNode w V) : Prop :=
  address ≠ Trie.head → node.value = none → node.kid1.isSome

/-- Linked, and every node branches or holds a value. -/
structure Valid (trie : Trie w V) : Prop where
  linked : Linked trie
  useful : ∀ address node, trie.cell address = some node → Useful address node

/-- What a node's kids and its parent know of it. -/
structure Alike (node after : TrieNode w V) : Prop where
  key : after.key = node.key
  mask : after.mask = node.mask
  parent : after.parent = node.parent

theorem Alike.refl (node : TrieNode w V) : Alike node node := ⟨rfl, rfl, rfl⟩

theorem Alike.width (alike : Alike node after) : width after = width node := by
  rw [Trie.width, Trie.width, alike.mask]

theorem Shape.congr (key : after.key = node.key) (mask : after.mask = node.mask) (shape : Shape node) : Shape after := by
  obtain ⟨short, prefixed, tidy⟩ := shape
  constructor
  · rw [width, mask]; exact short
  · rw [width, mask]; exact prefixed
  · rw [key, mask]; exact tidy

theorem Extends.congr {kidAfter : TrieNode w V} (key : after.key = node.key) (mask : after.mask = node.mask)
    (kidKey : kidAfter.key = kid.key) (kidMask : kidAfter.mask = kid.mask) (extension : Extends node kid) :
    Extends after kidAfter := by
  obtain ⟨longer, agree⟩ := extension
  constructor
  · rw [width, width, mask, kidMask]; exact longer
  · rw [width, mask, key, kidKey]; exact agree

theorem Extends.reparent_kid (extension : Extends node kid) (parent : Option Nat) : Extends node { kid with parent } :=
  ⟨extension.longer, extension.agree⟩

theorem Extends.trans {grandkid : TrieNode w V} (first : Extends node kid) (second : Extends kid grandkid) : Extends node grandkid :=
  ⟨Nat.lt_trans first.longer second.longer, (second.agree.mono (Nat.le_of_lt first.longer)).trans first.agree⟩

theorem setKid_alike (node : TrieNode w V) (leg : Bool) (kid : Option Nat) : Alike node (node.setKid leg kid) := by
  cases leg <;> exact ⟨rfl, rfl, rfl⟩

@[simp] theorem setKid_value (node : TrieNode w V) (leg : Bool) (kid : Option Nat) : (node.setKid leg kid).value = node.value := by
  cases leg <;> rfl

@[simp] theorem setKid_parent (node : TrieNode w V) (leg : Bool) (kid : Option Nat) : (node.setKid leg kid).parent = node.parent := by
  cases leg <;> rfl

@[simp] theorem setKid_self (node : TrieNode w V) (leg : Bool) (kid : Option Nat) : (node.setKid leg kid).kid leg = kid := by
  cases leg <;> rfl

theorem setKid_other (node : TrieNode w V) (different : leg' ≠ leg) (kid : Option Nat) :
    (node.setKid leg kid).kid leg' = node.kid leg' := by
  cases leg <;> cases leg' <;> first | rfl | exact absurd rfl different

theorem reparent_kid (node : TrieNode w V) (parent : Option Nat) : TrieNode.kid { node with parent } = node.kid := by
  funext leg
  cases leg <;> rfl

theorem revalue_kid (node : TrieNode w V) (value : Option V) : TrieNode.kid { node with value } = node.kid := by
  funext leg
  cases leg <;> rfl

/-! What a surgery leaves -/

/-- What is left of a node where the nodes of `moved` go or get other parents. -/
structure Left (moved : List Nat) (address : Nat) (node after : TrieNode w V) : Prop where
  alike : address ∉ moved → Alike node after
  value : address = Trie.head → after.value = node.value
  links : ∀ leg kid, kid ∉ moved → node.kid leg = some kid → ∃ leg', after.kid leg' = some kid

/-- Every node is left, but for some that go and have no kid that stays where it is. -/
def Survives (trie after : Trie w V) (moved : List Nat) : Prop :=
  ∀ address node, trie.cell address = some node →
    (∃ now, after.cell address = some now ∧ Left moved address node now) ∨
      (address ∈ moved ∧ ∀ leg kid, node.kid leg = some kid → kid ∈ moved)

section Survives
variable {after : Trie w V} {moved : List Nat}

theorem Left.refl : Left moved address node node := ⟨fun _ => .refl node, fun _ => rfl, fun leg _ _ points => ⟨leg, points⟩⟩

theorem Left.setKid (only : ∀ kid, node.kid leg = some kid → kid ∈ moved) (kid : Option Nat) :
    Left moved address node (node.setKid leg kid) := by
  refine ⟨fun _ => setKid_alike _ _ _, fun _ => setKid_value _ _ _, fun leg' kid' stays points => ⟨leg', ?_⟩⟩
  have different : leg' ≠ leg := by
    rintro rfl
    exact stays (only kid' points)
  exact (setKid_other _ different _).trans points

theorem Left.reparent (member : address ∈ moved) (parent : Option Nat) : Left moved address node { node with parent } :=
  ⟨fun outside => absurd member outside, fun _ => rfl, fun leg _ _ points => ⟨leg, by rw [reparent_kid]; exact points⟩⟩

theorem Survives.found (survives : Survives trie after moved) (stays : address ∉ moved) (held : trie.cell address = some node) :
    ∃ now, after.cell address = some now ∧ Left moved address node now := by
  obtain left | ⟨gone, _⟩ := survives address node held
  · exact left
  · exact absurd gone stays

theorem Survives.alike (survives : Survives trie after moved) (stays : address ∉ moved) (held : trie.cell address = some node) :
    ∃ now, after.cell address = some now ∧ Alike node now := by
  obtain ⟨now, found, left⟩ := survives.found stays held
  exact ⟨now, found, left.alike stays⟩

theorem Survives.parent {kid : Nat} (survives : Survives trie after moved) (stays : kid ∉ moved) (held : trie.cell address = some node)
    (points : node.kid leg = some kid) : ∃ now leg', after.cell address = some now ∧ now.kid leg' = some kid := by
  obtain ⟨now, found, left⟩ | ⟨_, kids⟩ := survives address node held
  · obtain ⟨leg', points'⟩ := left.links leg kid stays points
    exact ⟨now, leg', found, points'⟩
  · exact absurd (kids leg kid points) stays

theorem Survives.parents (survives : Survives trie after moved) (before : Local trie address node) (stays : address ∉ moved)
    (inner : address ≠ Trie.head) : ∃ parent parentNode leg, node.parent = some parent ∧
      after.cell parent = some parentNode ∧ parentNode.kid leg = some address := by
  obtain ⟨parent, parentNode, leg, up, held, points⟩ := before.parent inner
  obtain ⟨now, leg', found, points'⟩ := survives.parent stays held points
  exact ⟨parent, now, leg', up, found, points'⟩

theorem Local.reframe {nodeAfter : TrieNode w V} (before : Local trie address node) (survives : Survives trie after moved)
    (key : nodeAfter.key = node.key) (mask : nodeAfter.mask = node.mask) (same : nodeAfter.kid = node.kid)
    (stay : ∀ leg kid, node.kid leg = some kid → kid ∉ moved)
    (parent : address ≠ Trie.head → ∃ parent parentNode leg, nodeAfter.parent = some parent ∧
      after.cell parent = some parentNode ∧ parentNode.kid leg = some address) :
    Local after address nodeAfter := by
  have kid0 : nodeAfter.kid0 = node.kid0 := congrFun same false
  have kid1 : nodeAfter.kid1 = node.kid1 := congrFun same true
  refine ⟨before.shape.congr key mask, ?_, ?_, ?_, parent⟩
  · intro leg kid points
    rw [same] at points
    obtain ⟨kidNode, held, up, extension⟩ := before.kids leg kid points
    obtain ⟨kidAfter, heldAfter, alike⟩ := survives.alike (stay leg kid points) held
    exact ⟨kidAfter, heldAfter, alike.parent.trans up, extension.congr key mask alike.key alike.mask⟩
  · rw [kid0, kid1]
    exact before.filled
  · intro first second firstAfter secondAfter left right heldFirst heldSecond
    rw [kid0] at left
    rw [kid1] at right
    obtain ⟨firstNode, held, _⟩ := before.kids false first left
    obtain ⟨secondNode, held', _⟩ := before.kids true second right
    obtain ⟨_, heldAfter, alike⟩ := survives.alike (stay false first left) held
    obtain ⟨_, heldAfter', alike'⟩ := survives.alike (stay true second right) held'
    cases heldFirst.symm.trans heldAfter
    cases heldSecond.symm.trans heldAfter'
    rw [width, mask, alike.key, alike'.key]
    exact before.split first second firstNode secondNode left right held held'

theorem Local.frame (before : Local trie address node) (survives : Survives trie after moved) (stays : address ∉ moved)
    (stay : ∀ leg kid, node.kid leg = some kid → kid ∉ moved) : Local after address node :=
  before.reframe survives rfl rfl rfl stay (survives.parents before stays)

theorem Local.setKid {new : Nat} {newNode : TrieNode w V} (before : Local trie address node) (survives : Survives trie after moved)
    (stays : address ∉ moved) (held : after.cell new = some newNode) (up : newNode.parent = some address)
    (extension : Extends node newNode) (filled : leg = true → node.kid0 ≠ none)
    (others : ∀ leg' kid, leg' ≠ leg → node.kid leg' = some kid → kid ∉ moved ∧ ∀ kidNode, trie.cell kid = some kidNode →
      kidNode.key.getMsbD (width node) ≠ newNode.key.getMsbD (width node)) :
    Local after address (node.setKid leg (some new)) := by
  have alike := setKid_alike node leg (some new)
  -- what the other leg leads to
  have apart : ∀ leg' kid kidAfter, leg' ≠ leg → (node.setKid leg (some new)).kid leg' = some kid →
      after.cell kid = some kidAfter → kidAfter.key.getMsbD (width node) ≠ newNode.key.getMsbD (width node) := by
    intro leg' kid kidAfter different points heldAfter
    rw [setKid_other _ different] at points
    obtain ⟨kidNode, heldKid, _⟩ := before.kids leg' kid points
    obtain ⟨stay, differ⟩ := others leg' kid different points
    obtain ⟨_, found, alikeKid⟩ := survives.alike stay heldKid
    cases heldAfter.symm.trans found
    rw [alikeKid.key]
    exact differ kidNode heldKid
  constructor
  · exact before.shape.congr alike.key alike.mask
  · intro leg' kid points
    by_cases same : leg' = leg
    · subst same
      rw [setKid_self, Option.some.injEq] at points
      subst points
      exact ⟨newNode, held, up, extension.congr alike.key alike.mask rfl rfl⟩
    · rw [setKid_other _ same] at points
      obtain ⟨kidNode, heldKid, upKid, extensionKid⟩ := before.kids leg' kid points
      obtain ⟨kidAfter, found, alikeKid⟩ := survives.alike (others leg' kid same points).1 heldKid
      exact ⟨kidAfter, found, alikeKid.parent.trans upKid, extensionKid.congr alike.key alike.mask alikeKid.key alikeKid.mask⟩
  · intro emptied
    cases leg with
    | false => cases emptied
    | true => exact absurd emptied (filled rfl)
  · intro first second firstNode secondNode left right heldFirst heldSecond
    rw [alike.width]
    cases leg with
    | false =>
      cases left
      cases held.symm.trans heldFirst
      exact (apart true second secondNode Bool.false_ne_true.symm right heldSecond).symm
    | true =>
      cases right
      cases held.symm.trans heldSecond
      exact apart false first firstNode Bool.false_ne_true left heldFirst
  · rw [setKid_parent]
    exact survives.parents before stays

end Survives

theorem Local.apart {kid other : Nat} {otherNode : TrieNode w V}
    (here : Local trie address node) (different : leg' ≠ leg) (points' : node.kid leg' = some other)
    (points : node.kid leg = some kid) (held' : trie.cell other = some otherNode) (held : trie.cell kid = some kidNode) :
    otherNode.key.getMsbD (width node) ≠ kidNode.key.getMsbD (width node) := by
  cases leg <;> cases leg'
  · exact absurd rfl different
  · exact (here.split kid other kidNode otherNode points points' held held').symm
  · exact here.split other kid otherNode kidNode points' points held' held
  · exact absurd rfl different

namespace Linked

variable {kid : Nat}

section

variable (linked : Linked trie)
include linked

theorem kid_held (held : trie.cell address = some node) (points : node.kid leg = some kid) :
    ∃ kidNode, trie.cell kid = some kidNode ∧ kidNode.parent = some address ∧ Extends node kidNode :=
  (linked.nodes address node held).kids leg kid points

theorem one_parent {other : Nat} {otherNode : TrieNode w V}
    (held : trie.cell address = some node) (points : node.kid leg = some kid) (held' : trie.cell other = some otherNode)
    (points' : otherNode.kid leg' = some kid) : other = address := by
  obtain ⟨_, heldKid, up, _⟩ := linked.kid_held held points
  obtain ⟨_, heldKid', up', _⟩ := linked.kid_held held' points'
  rw [heldKid, Option.some.injEq] at heldKid'
  subst heldKid'
  rw [up, Option.some.injEq] at up'
  exact up'.symm

theorem one_leg (held : trie.cell address = some node)
    (points : node.kid leg = some kid) (points' : node.kid leg' = some kid) : leg' = leg := by
  have here := linked.nodes address node held
  obtain ⟨kidNode, heldKid, _⟩ := here.kids leg kid points
  cases leg <;> cases leg'
  · rfl
  · exact absurd rfl (here.split kid kid kidNode kidNode points points' heldKid heldKid)
  · exact absurd rfl (here.split kid kid kidNode kidNode points' points heldKid heldKid)
  · rfl

theorem kid_ne_self (held : trie.cell address = some node) (points : node.kid leg = some kid) : kid ≠ address := by
  intro same
  obtain ⟨_, heldKid, _, extension⟩ := linked.kid_held held points
  rw [same, held, Option.some.injEq] at heldKid
  subst heldKid
  exact Nat.lt_irrefl _ extension.longer

theorem kid_ne_head (held : trie.cell address = some node) (points : node.kid leg = some kid) : kid ≠ Trie.head := by
  intro same
  obtain ⟨_, heldKid, up, _⟩ := linked.kid_held held points
  obtain ⟨_, heldHead, root, _⟩ := linked.head
  rw [same, heldHead, Option.some.injEq] at heldKid
  subst heldKid
  rw [root] at up
  cases up

end

end Linked

/-- What it takes to look at the touched nodes alone: the nodes that move hang below touched
ones, and so no other node knows of them. -/
theorem Linked.surgery {after : Trie w V} (linked : Linked trie) (touched moved : List Nat) (survives : Survives trie after moved)
    (bounded : after.Bounded) (untouched : ∀ address, address ∉ touched → after.cell address = trie.cell address)
    (owned : ∀ kid ∈ moved, kid ∈ touched ∧ ∃ parent ∈ touched, ∃ parentNode leg,
      trie.cell parent = some parentNode ∧ parentNode.kid leg = some kid)
    (direct : ∀ address ∈ touched, ∀ node, after.cell address = some node → Local after address node) : Linked after := by
  refine ⟨bounded, ?_, fun address node held => ?_⟩
  · obtain ⟨headNode, found, root, valueless, top⟩ := linked.head
    have stays : Trie.head ∉ moved := by
      intro member
      obtain ⟨_, _, _, _, _, held, points⟩ := owned _ member
      exact linked.kid_ne_head held points rfl
    obtain ⟨now, foundNow, left⟩ := survives.found stays found
    have alike := left.alike stays
    exact ⟨now, foundNow, alike.parent.trans root, (left.value rfl).trans valueless, alike.width.trans top⟩
  · by_cases member : address ∈ touched
    · exact direct address member node held
    · rw [untouched address member] at held
      refine (linked.nodes address node held).frame survives (fun moves => member (owned address moves).1) fun leg kid points moves => ?_
      obtain ⟨_, parent, inside, _, _, held', points'⟩ := owned kid moves
      rw [linked.one_parent held points held' points'] at inside
      exact member inside

theorem setValue_survives (linked : Linked trie) (held : trie.cell address = some node) {value : Option V}
    (inner : address = Trie.head → value = none) : Survives trie (trie.write address { node with value }) [] := by
  intro other object found
  refine .inl ?_
  by_cases same : other = address
  · subst same
    cases held.symm.trans found
    refine ⟨{ node with value }, by rw [write_cell, if_pos rfl], fun _ => ⟨rfl, rfl, rfl⟩, fun top => ?_,
      fun leg _ _ points => ⟨leg, by rw [revalue_kid]; exact points⟩⟩
    obtain ⟨_, found, _, valueless, _⟩ := linked.head
    rw [← top] at found
    cases held.symm.trans found
    exact (inner top).trans valueless.symm
  · exact ⟨object, by rw [write_cell, if_neg same]; exact found, .refl⟩

theorem setValue_linked (linked : Linked trie)
    (held : trie.cell address = some node) {value : Option V} (inner : address = Trie.head → value = none) :
    Linked (trie.write address { node with value }) := by
  have survives := setValue_survives linked held inner
  refine linked.surgery [address] [] survives (linked.bounded.write held _) ?_ (fun _ member => absurd member not_mem_nil) ?_
  · intro other outside
    rw [write_cell, if_neg (by simpa using outside)]
  · intro other member object found
    rw [mem_singleton] at member
    subst member
    rw [write_cell, if_pos rfl, Option.some.injEq] at found
    subst found
    have here := linked.nodes other node held
    have parents := survives.parents here not_mem_nil
    exact here.reframe survives rfl rfl (revalue_kid _ _) (fun _ _ _ => not_mem_nil) parents

def withLeaf (trie : Trie w V) (address : Nat) (node : TrieNode w V) (leg : Bool) (leaf : TrieNode w V) : Trie w V :=
  (trie.alloc leaf).1.write address (node.setKid leg (some trie.next))

theorem withLeaf_cell (trie : Trie w V) (address : Nat) (node : TrieNode w V) (leg : Bool) (leaf : TrieNode w V) (other : Nat) :
    (withLeaf trie address node leg leaf).cell other =
      if other = address then some (node.setKid leg (some trie.next))
      else if other = trie.next then some leaf else trie.cell other := by
  rw [withLeaf, write_cell, alloc_cell]

theorem withLeaf_survives (linked : Linked trie) (held : trie.cell address = some node) (free : node.kid leg = none)
    (leaf : TrieNode w V) : Survives trie (withLeaf trie address node leg leaf) [] := by
  intro other object found
  refine .inl ?_
  by_cases same : other = address
  · subst same
    cases held.symm.trans found
    exact ⟨_, by rw [withLeaf_cell, if_pos rfl], .setKid (fun _ points => absurd (free.symm.trans points) (by simp)) _⟩
  · have older : other ≠ trie.next := Nat.ne_of_lt (linked.bounded _ _ found)
    exact ⟨object, by rw [withLeaf_cell, if_neg same, if_neg older]; exact found, .refl⟩

theorem withLeaf_linked (linked : Linked trie) {leaf : TrieNode w V} (held : trie.cell address = some node) (free : node.kid leg = none)
    (shape : Shape leaf) (up : leaf.parent = some address) (bare : leaf.kid0 = none ∧ leaf.kid1 = none) (extension : Extends node leaf)
    (apart : leg = true → ∃ first firstNode, node.kid0 = some first ∧ trie.cell first = some firstNode ∧
      firstNode.key.getMsbD (width node) ≠ leaf.key.getMsbD (width node)) :
    Linked (withLeaf trie address node leg leaf) := by
  have cell := withLeaf_cell trie address node leg leaf
  have survives := withLeaf_survives linked held free leaf
  have fresh : address ≠ trie.next := Nat.ne_of_lt (linked.bounded _ _ held)
  refine linked.surgery [address, trie.next] [] survives ?_ ?_ (fun _ member => absurd member not_mem_nil) ?_
  · exact (linked.bounded.alloc leaf).write (by rw [alloc_cell, if_neg fresh]; exact held) _
  · intro other outside
    simp only [mem_cons, not_mem_nil, or_false, not_or] at outside
    rw [cell, if_neg outside.1, if_neg outside.2]
  · intro other member object found
    have here := linked.nodes address node held
    simp only [mem_cons, not_mem_nil, or_false] at member
    obtain rfl | rfl := member
    · -- the node that gets the leaf
      rw [cell, if_pos rfl, Option.some.injEq] at found
      subst found
      refine here.setKid survives not_mem_nil (by rw [cell, if_neg fresh.symm, if_pos rfl]) up extension ?_ ?_
      · intro right
        obtain ⟨first, _, filled, _⟩ := apart right
        exact fun emptied => absurd (filled.symm.trans emptied) (by simp)
      · refine fun leg' kid different points => ⟨not_mem_nil, fun kidNode heldKid => ?_⟩
        cases leg with
        | false =>
          -- an empty kid 0 means that kid 1 is empty as well
          rw [Bool.eq_true_of_not_eq_false different] at points
          exact absurd ((here.filled free).symm.trans points) (by simp)
        | true =>
          rw [Bool.eq_false_of_not_eq_true different] at points
          obtain ⟨first, firstNode, filled, heldFirst, differ⟩ := apart rfl
          cases (filled.symm.trans points : some _ = some _)
          cases heldKid.symm.trans heldFirst
          exact differ
    · -- the leaf
      rw [cell, if_neg fresh.symm, if_pos rfl, Option.some.injEq] at found
      subst found
      refine ⟨shape, ?_, fun _ => bare.2, ?_, ?_⟩
      · intro leg' kid points
        cases leg' with
        | false => exact absurd (bare.1.symm.trans points) (by simp)
        | true => exact absurd (bare.2.symm.trans points) (by simp)
      · exact fun _ _ _ _ left _ _ _ => absurd (bare.1.symm.trans left) (by simp)
      · exact fun _ => ⟨address, _, leg, up, by rw [cell, if_pos rfl], setKid_self _ _ _⟩

def withInner (trie : Trie w V) (address : Nat) (node : TrieNode w V) (leg : Bool) (kid : Nat) (kidNode inner : TrieNode w V) :
    Trie w V :=
  ((trie.alloc inner).1.write kid { kidNode with parent := some trie.next }).write address
    (node.setKid leg (some trie.next))

theorem withInner_cell (trie : Trie w V) (address : Nat) (node : TrieNode w V) (leg : Bool) (kid : Nat)
    (kidNode inner : TrieNode w V) (other : Nat) :
    (withInner trie address node leg kid kidNode inner).cell other =
      if other = address then some (node.setKid leg (some trie.next))
      else if other = kid then some { kidNode with parent := some trie.next }
      else if other = trie.next then some inner else trie.cell other := by
  rw [withInner, write_cell, write_cell, alloc_cell]

theorem withInner_survives (linked : Linked trie) {kid : Nat} (held : trie.cell address = some node) (points : node.kid leg = some kid)
    (heldKid : trie.cell kid = some kidNode) (inner : TrieNode w V) :
    Survives trie (withInner trie address node leg kid kidNode inner) [kid] := by
  intro other object found
  refine .inl ?_
  by_cases same : other = address
  · subst same
    cases held.symm.trans found
    refine ⟨_, by rw [withInner_cell, if_pos rfl], .setKid (fun kid' points' => ?_) _⟩
    cases points.symm.trans points'
    exact mem_cons_self
  · by_cases same' : other = kid
    · subst same'
      cases heldKid.symm.trans found
      exact ⟨_, by rw [withInner_cell, if_neg same, if_pos rfl], .reparent mem_cons_self _⟩
    · have older : other ≠ trie.next := Nat.ne_of_lt (linked.bounded _ _ found)
      exact ⟨object, by rw [withInner_cell, if_neg same, if_neg same', if_neg older]; exact found, .refl⟩

theorem withInner_linked (linked : Linked trie) {kid : Nat} {inner : TrieNode w V}
    (held : trie.cell address = some node) (points : node.kid leg = some kid)
    (heldKid : trie.cell kid = some kidNode) (shape : Shape inner) (up : inner.parent = some address)
    (left : inner.kid0 = some kid) (right : inner.kid1 = none) (above : Extends node inner) (below : Extends inner kidNode) :
    Linked (withInner trie address node leg kid kidNode inner) := by
  have cell := withInner_cell trie address node leg kid kidNode inner
  have survives := withInner_survives linked held points heldKid inner
  have fresh : address ≠ trie.next := Nat.ne_of_lt (linked.bounded _ _ held)
  have freshKid : kid ≠ trie.next := Nat.ne_of_lt (linked.bounded _ _ heldKid)
  have apart : kid ≠ address := linked.kid_ne_self held points
  have new : (withInner trie address node leg kid kidNode inner).cell trie.next = some inner := by
    rw [cell, if_neg fresh.symm, if_neg freshKid.symm, if_pos rfl]
  refine linked.surgery [address, kid, trie.next] [kid] survives ?_ ?_ ?_ ?_
  · have bounded := (linked.bounded.alloc inner).write (by rw [alloc_cell, if_neg freshKid]; exact heldKid) { kidNode with parent := some trie.next }
    exact bounded.write (by rw [write_cell, if_neg apart.symm, alloc_cell, if_neg fresh]; exact held) _
  · intro other outside
    simp only [mem_cons, not_mem_nil, or_false, not_or] at outside
    rw [cell, if_neg outside.1, if_neg outside.2.1, if_neg outside.2.2]
  · intro other member
    obtain rfl := mem_singleton.mp member
    exact ⟨by simp, address, mem_cons_self, node, leg, held, points⟩
  · intro other member object found
    simp only [mem_cons, not_mem_nil, or_false] at member
    obtain rfl | rfl | rfl := member
    · -- the node above
      rw [cell, if_pos rfl, Option.some.injEq] at found
      subst found
      have here := linked.nodes other node held
      refine here.setKid survives (by simpa using apart.symm) new up above ?_ fun leg' kid' different points' => ⟨?_, fun kidNode' heldKid' => ?_⟩
      · rintro rfl emptied
        exact absurd ((here.filled emptied).symm.trans points) (by simp)
      · intro member
        obtain rfl := mem_singleton.mp member
        exact different (linked.one_leg held points points')
      · -- the new kid has the next bit of the kid it replaces
        rw [← below.agree (width node) above.longer]
        exact here.apart different points' points heldKid' heldKid
    · -- the kid
      rw [cell, if_neg apart, if_pos rfl, Option.some.injEq] at found
      subst found
      refine (linked.nodes other kidNode heldKid).reframe survives rfl rfl (reparent_kid _ _) ?_ ?_
      · exact fun leg' kid' points' => by simpa using linked.kid_ne_self heldKid points'
      · exact fun _ => ⟨trie.next, inner, false, rfl, new, left⟩
    · -- the new node
      cases new.symm.trans found
      refine ⟨shape, ?_, fun _ => right, fun _ _ _ _ _ right' _ _ => absurd (right.symm.trans right') (by simp), ?_⟩
      · intro leg' kid' points'
        cases leg' with
        | false =>
          cases (left.symm.trans points' : some _ = some _)
          exact ⟨{ kidNode with parent := some trie.next }, by rw [cell, if_neg apart, if_pos rfl], rfl, below.reparent_kid _⟩
        | true => exact absurd (right.symm.trans points') (by simp)
      · exact fun _ => ⟨address, _, leg, up, by rw [cell, if_pos rfl], setKid_self _ _ _⟩

def bypassed (trie : Trie w V) (address parent : Nat) (parentNode : TrieNode w V) (leg : Bool) (kid : Nat)
    (kidNode : TrieNode w V) : Trie w V :=
  ((trie.write kid { kidNode with parent := some parent }).write parent (parentNode.setKid leg (some kid))).free address

theorem bypassed_cell (trie : Trie w V) (address parent : Nat) (parentNode : TrieNode w V) (leg : Bool) (kid : Nat)
    (kidNode : TrieNode w V) (other : Nat) :
    (bypassed trie address parent parentNode leg kid kidNode).cell other =
      if other = address then none
      else if other = parent then some (parentNode.setKid leg (some kid))
      else if other = kid then some { kidNode with parent := some parent } else trie.cell other := by
  rw [bypassed, free_cell, write_cell, write_cell]

theorem bypassed_survives {parent kid : Nat} {parentNode : TrieNode w V} (held : trie.cell address = some node)
    (heldParent : trie.cell parent = some parentNode) (down : parentNode.kid leg = some address)
    (only : node.kid1 = none) (points : node.kid0 = some kid) (heldKid : trie.cell kid = some kidNode) :
    Survives trie (bypassed trie address parent parentNode leg kid kidNode) [address, kid] := by
  intro other object found
  by_cases gone : other = address
  · subst gone
    cases held.symm.trans found
    refine .inr ⟨mem_cons_self, fun leg' kid' points' => ?_⟩
    cases leg' with
    | false =>
      cases (points.symm.trans points' : some _ = some _)
      simp
    | true => exact absurd (only.symm.trans points') (by simp)
  · refine .inl ?_
    by_cases same : other = parent
    · subst same
      cases heldParent.symm.trans found
      refine ⟨_, by rw [bypassed_cell, if_neg gone, if_pos rfl], .setKid (fun kid' points' => ?_) _⟩
      cases down.symm.trans points'
      exact mem_cons_self
    · by_cases same' : other = kid
      · subst same'
        cases heldKid.symm.trans found
        exact ⟨_, by rw [bypassed_cell, if_neg gone, if_neg same, if_pos rfl], .reparent (by simp) _⟩
      · exact ⟨object, by rw [bypassed_cell, if_neg gone, if_neg same, if_neg same']; exact found, .refl⟩

theorem bypassed_linked (linked : Linked trie) {parent kid : Nat} {parentNode : TrieNode w V} (held : trie.cell address = some node)
    (heldParent : trie.cell parent = some parentNode) (down : parentNode.kid leg = some address)
    (only : node.kid1 = none) (points : node.kid0 = some kid) (heldKid : trie.cell kid = some kidNode) :
    Linked (bypassed trie address parent parentNode leg kid kidNode) := by
  have cell := bypassed_cell trie address parent parentNode leg kid kidNode
  have survives := bypassed_survives held heldParent down only points heldKid
  have pointsLeg : node.kid false = some kid := points
  have parentApart : parent ≠ address := (linked.kid_ne_self heldParent down).symm
  have kidApart : kid ≠ address := linked.kid_ne_self held pointsLeg
  obtain ⟨_, found, _, above⟩ := linked.kid_held heldParent down
  cases held.symm.trans found
  obtain ⟨_, found, _, below⟩ := linked.kid_held held pointsLeg
  cases heldKid.symm.trans found
  have kidParent : kid ≠ parent := by
    rintro rfl
    cases heldParent.symm.trans heldKid
    exact absurd (Nat.lt_trans above.longer below.longer) (Nat.lt_irrefl _)
  refine linked.surgery [address, parent, kid] [address, kid] survives ?_ ?_ ?_ ?_
  · exact ((linked.bounded.write heldKid _).write (by rw [write_cell, if_neg kidParent.symm]; exact heldParent) _).free _
  · intro other outside
    simp only [mem_cons, not_mem_nil, or_false, not_or] at outside
    rw [cell, if_neg outside.1, if_neg outside.2.1, if_neg outside.2.2]
  · intro other member
    simp only [mem_cons, not_mem_nil, or_false] at member
    obtain rfl | rfl := member
    · exact ⟨by simp, parent, by simp, parentNode, leg, heldParent, down⟩
    · exact ⟨by simp, address, by simp, node, false, held, points⟩
  · intro other member object found
    -- a kid of a node that stays is not the kid of the one that goes
    have stays : ∀ {upper upperNode leg' lower}, upper ≠ address → trie.cell upper = some upperNode →
        upperNode.kid leg' = some lower → lower ≠ address → lower ∉ [address, kid] := by
      intro upper upperNode leg' lower upperApart heldUpper points' present member
      simp only [mem_cons, not_mem_nil, or_false, present, false_or] at member
      rw [member] at points'
      exact upperApart (linked.one_parent held pointsLeg heldUpper points')
    simp only [mem_cons, not_mem_nil, or_false] at member
    obtain rfl | rfl | rfl := member
    · rw [cell, if_pos rfl] at found
      cases found
    · -- the parent
      rw [cell, if_neg parentApart, if_pos rfl, Option.some.injEq] at found
      subst found
      have here := linked.nodes other parentNode heldParent
      refine here.setKid survives (by simp [parentApart, kidParent.symm]) (by rw [cell, if_neg kidApart, if_neg kidParent, if_pos rfl]) rfl
        ((above.trans below).reparent_kid _) ?_ fun leg' kid' different points' => ⟨stays parentApart heldParent points' ?_, fun kidNode' heldKid' => ?_⟩
      · rintro rfl emptied
        exact absurd ((here.filled emptied).symm.trans down) (by simp)
      · rintro rfl
        exact different (linked.one_leg heldParent down points')
      · show kidNode'.key.getMsbD _ ≠ kidNode.key.getMsbD _
        rw [below.agree (width parentNode) above.longer]
        exact here.apart different points' down heldKid' held
    · -- the kid
      rw [cell, if_neg kidApart, if_neg kidParent, if_pos rfl, Option.some.injEq] at found
      subst found
      refine (linked.nodes other kidNode heldKid).reframe survives rfl rfl (reparent_kid _ _) ?_ ?_
      · intro leg' kid' points'
        refine stays kidApart heldKid points' ?_
        rintro rfl
        exact kidParent (linked.one_parent heldParent down heldKid points')
      · exact fun _ => ⟨parent, _, leg, rfl, by rw [cell, if_neg parentApart, if_pos rfl], setKid_self _ _ _⟩

theorem fillKid0_alike (node : TrieNode w V) : Alike node (Trie.fillKid0 node) := by
  unfold Trie.fillKid0
  split
  · exact ⟨rfl, rfl, rfl⟩
  · exact .refl node

theorem dropKid_alike (node : TrieNode w V) (leg : Bool) : Alike node (Trie.fillKid0 (node.setKid leg none)) := by
  have first := setKid_alike node leg none
  have second := fillKid0_alike (node.setKid leg none)
  exact ⟨second.key.trans first.key, second.mask.trans first.mask, second.parent.trans first.parent⟩

@[simp] theorem fillKid0_value (node : TrieNode w V) : (Trie.fillKid0 node).value = node.value := by
  unfold Trie.fillKid0
  split <;> rfl

theorem fillKid0_setKid_none (node : TrieNode w V) (leg : Bool) :
    (Trie.fillKid0 (node.setKid leg none)).kid0 = node.kid (!leg) ∧ (Trie.fillKid0 (node.setKid leg none)).kid1 = none := by
  cases leg with
  | true => exact ⟨rfl, rfl⟩
  | false =>
    unfold Trie.fillKid0
    cases right : node.kid1 with
    | none | some kid => simp [TrieNode.setKid, TrieNode.kid, right]

def withoutLeaf (trie : Trie w V) (address parent : Nat) (parentNode : TrieNode w V) (leg : Bool) : Trie w V :=
  (trie.write parent (Trie.fillKid0 (parentNode.setKid leg none))).free address

theorem withoutLeaf_cell (trie : Trie w V) (address parent : Nat) (parentNode : TrieNode w V) (leg : Bool) (other : Nat) :
    (withoutLeaf trie address parent parentNode leg).cell other =
      if other = address then none
      else if other = parent then some (Trie.fillKid0 (parentNode.setKid leg none)) else trie.cell other := by
  rw [withoutLeaf, free_cell, write_cell]

theorem withoutLeaf_survives {parent : Nat} {parentNode : TrieNode w V} (held : trie.cell address = some node)
    (heldParent : trie.cell parent = some parentNode) (down : parentNode.kid leg = some address) (none0 : node.kid0 = none)
    (none1 : node.kid1 = none) : Survives trie (withoutLeaf trie address parent parentNode leg) [address] := by
  intro other object found
  by_cases gone : other = address
  · subst gone
    cases held.symm.trans found
    refine .inr ⟨mem_cons_self, fun leg' kid' points' => ?_⟩
    cases leg' with
    | false => exact absurd (none0.symm.trans points') (by simp)
    | true => exact absurd (none1.symm.trans points') (by simp)
  · refine .inl ?_
    by_cases same : other = parent
    · subst same
      cases heldParent.symm.trans found
      refine ⟨_, by rw [withoutLeaf_cell, if_neg gone, if_pos rfl], fun _ => dropKid_alike _ _, fun _ => ?_, fun leg' kid' stays points' => ?_⟩
      · rw [fillKid0_value, setKid_value]
      · have otherLeg : leg' = !leg := by
          refine Bool.eq_not_of_ne ?_
          rintro rfl
          exact stays (mem_singleton.mpr (Option.some.inj (down.symm.trans points')).symm)
        subst otherLeg
        exact ⟨false, (fillKid0_setKid_none _ _).1.trans points'⟩
    · exact ⟨object, by rw [withoutLeaf_cell, if_neg gone, if_neg same]; exact found, .refl⟩

theorem withoutLeaf_linked (linked : Linked trie) {parent : Nat} {parentNode : TrieNode w V}
    (held : trie.cell address = some node) (heldParent : trie.cell parent = some parentNode)
    (down : parentNode.kid leg = some address) (bare : node.kid0 = none) :
    Linked (withoutLeaf trie address parent parentNode leg) := by
  have cell := withoutLeaf_cell trie address parent parentNode leg
  have survives := withoutLeaf_survives held heldParent down bare ((linked.nodes address node held).filled bare)
  have parentApart : parent ≠ address := (linked.kid_ne_self heldParent down).symm
  have alike := dropKid_alike parentNode leg
  obtain ⟨onlyKid, noKid⟩ := fillKid0_setKid_none parentNode leg
  refine linked.surgery [address, parent] [address] survives ((linked.bounded.write heldParent _).free _) ?_ ?_ ?_
  · intro other outside
    simp only [mem_cons, not_mem_nil, or_false, not_or] at outside
    rw [cell, if_neg outside.1, if_neg outside.2]
  · intro other member
    obtain rfl := mem_singleton.mp member
    exact ⟨mem_cons_self, parent, by simp, parentNode, leg, heldParent, down⟩
  · intro other member object found
    simp only [mem_cons, not_mem_nil, or_false] at member
    obtain rfl | rfl := member
    · rw [cell, if_pos rfl] at found
      cases found
    · rw [cell, if_neg parentApart, if_pos rfl, Option.some.injEq] at found
      subst found
      have here := linked.nodes other parentNode heldParent
      constructor
      · exact here.shape.congr alike.key alike.mask
      · intro leg' kid points
        cases leg' with
        | true => exact absurd (noKid.symm.trans points) (by simp)
        | false =>
          have points : parentNode.kid (!leg) = some kid := onlyKid.symm.trans points
          obtain ⟨kidNode, heldKid, upKid, extension⟩ := here.kids _ kid points
          have present : kid ∉ [address] := by
            intro member
            obtain rfl := mem_singleton.mp member
            exact Bool.not_ne_self leg (linked.one_leg heldParent down points)
          obtain ⟨after, foundAfter, alikeKid⟩ := survives.alike present heldKid
          exact ⟨after, foundAfter, alikeKid.parent.trans upKid, extension.congr alike.key alike.mask alikeKid.key alikeKid.mask⟩
      · exact fun _ => noKid
      · exact fun _ _ _ _ _ right _ _ => absurd (noKid.symm.trans right) (by simp)
      · rw [alike.parent]
        exact survives.parents here (by simpa using parentApart)

end ImcGem5.Base.Proofs.Trie
