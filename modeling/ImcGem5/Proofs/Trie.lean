import ImcGem5.Proofs.TrieLinks

/-! The trie is a shortest-prefix map: what it holds is a partial map from handles to
entries, a lookup finds the shortest entry that matches, and the operations change that
map at one handle. -/

namespace ImcGem5.Base.Proofs.Trie
open Lib Option Function Heap

variable {w : Nat} {V : Type}

structure Entry (w : Nat) (V : Type) where
  key : BitVec w
  width : Nat
  value : V
  deriving DecidableEq, Repr

def Entry.Matches (entry : Entry w V) (key : BitVec w) : Prop := Agree entry.width key entry.key

def nodeEntry (node : TrieNode w V) : Option (Entry w V) := node.value.map fun value => ⟨node.key, width node, value⟩

def entryAt (trie : Trie w V) (handle : Nat) : Option (Entry w V) := (trie.cell handle).bind nodeEntry

variable {trie after : Trie w V} {handle address n kid place parent gone : Nat} {entry : Entry w V}
  {node kidNode inner parentNode : TrieNode w V} {key : BitVec w} {leg : Bool}

theorem entryAt_some : entryAt trie handle = some entry ↔ ∃ node value, trie.cell handle = some node ∧ node.value = some value ∧
      entry = ⟨node.key, width node, value⟩ := by
  simp only [entryAt, nodeEntry, bind_eq_some_iff, map_eq_some_iff]
  constructor
  · rintro ⟨node, held, value, stored, rfl⟩
    exact ⟨node, value, held, stored, rfl⟩
  · rintro ⟨node, value, held, stored, rfl⟩
    exact ⟨node, held, value, stored, rfl⟩

theorem matchesKey_iff (shape : Shape node) : node.matchesKey key = true ↔ Agree (width node) key node.key := by
  rw [TrieNode.matchesKey, beq_iff_eq, ← mask_eq_iff shape.short, ← shape.mask, shape.key]

inductive Below (trie : Trie w V) (top : Nat) : Nat → Prop where
  | refl : Below trie top top
  | down {address kid : Nat} {node : TrieNode w V} {leg : Bool} (above : Below trie top address)
      (held : trie.cell address = some node) (points : node.kid leg = some kid) : Below trie top kid

theorem below_head (linked : Linked trie) (held : trie.cell address = some node) : Below trie Trie.head address := by
  -- towards the head the prefixes get shorter
  induction size : width node using Nat.strong_induction_on generalizing address node with
  | _ size ih =>
    by_cases top : address = Trie.head
    · rw [top]
      exact .refl
    · obtain ⟨parent, _, _, _, heldParent, points⟩ := (linked.nodes address node held).parent top
      obtain ⟨_, found, _, extension⟩ := linked.kid_held heldParent points
      rw [held, Option.some.injEq] at found
      subst found
      exact .down (ih _ (by rw [← size]; exact extension.longer) heldParent rfl) heldParent points

theorem below_cases {top : Nat} (below : Below trie top address) :
    address = top ∨ ∃ node leg kid, trie.cell top = some node ∧ node.kid leg = some kid ∧ Below trie kid address := by
  induction below with
  | refl => exact .inl rfl
  | down _ held points ih =>
    refine .inr ?_
    obtain rfl | ⟨topNode, leg, first, heldTop, pointsTop, below⟩ := ih
    · exact ⟨_, _, _, held, points, .refl⟩
    · exact ⟨topNode, leg, first, heldTop, pointsTop, .down below held points⟩

theorem below_extends (linked : Linked trie) {top : Nat} (below : Below trie top address)
    {topNode : TrieNode w V} (heldTop : trie.cell top = some topNode) (held : trie.cell address = some node) :
    Agree (width topNode) node.key topNode.key ∧ width topNode ≤ width node ∧ (address ≠ top → width topNode < width node) := by
  induction below generalizing node with
  | refl =>
    rw [held, Option.some.injEq] at heldTop
    subst heldTop
    exact ⟨.refl _ _, Nat.le_refl _, fun different => absurd rfl different⟩
  | down _ heldParent points ih =>
    obtain ⟨agree, longer, _⟩ := ih heldParent
    obtain ⟨_, found, _, extension⟩ := linked.kid_held heldParent points
    rw [held, Option.some.injEq] at found
    subst found
    have further : width topNode < width node := Nat.lt_of_le_of_lt longer extension.longer
    exact ⟨(extension.agree.mono longer).trans agree, Nat.le_of_lt further, fun _ => further⟩

inductive Shortest (stored : Nat → Option (Entry w V)) (key : BitVec w) : Option Nat → Prop where
  | found {handle : Nat} {entry : Entry w V} (held : stored handle = some entry) (matching : entry.Matches key)
      (least : ∀ other entry', stored other = some entry' → entry'.Matches key → other ≠ handle → entry.width < entry'.width) :
      Shortest stored key (some handle)
  | missing (none_ : ∀ other entry, stored other = some entry → ¬entry.Matches key) : Shortest stored key none

theorem kidMatches_ok (linked : Linked trie) (held : trie.cell address = some node) (leg : Bool) (key : BitVec w) :
    ∃ next, trie.kidMatches (node.kid leg) key = .ok next ∧
      (∀ kid, next = some kid → node.kid leg = some kid ∧
        ∃ kidNode, trie.cell kid = some kidNode ∧ Extends node kidNode ∧ Agree (width kidNode) key kidNode.key) ∧
      (next = none → ∀ kid kidNode, node.kid leg = some kid → trie.cell kid = some kidNode →
        ¬Agree (width kidNode) key kidNode.key) := by
  cases points : node.kid leg with
  | none => exact ⟨none, rfl, nofun, nofun⟩
  | some kid =>
    obtain ⟨kidNode, heldKid, _, extension⟩ := linked.kid_held held points
    have shape := (linked.nodes kid kidNode heldKid).shape
    simp only [Trie.kidMatches, read_of_cell heldKid, ok_bind]
    by_cases matching : kidNode.matchesKey key = true
    · rw [if_pos matching]
      refine ⟨some kid, rfl, ?_, nofun⟩
      intro other same
      cases same
      exact ⟨rfl, kidNode, heldKid, extension, (matchesKey_iff shape).mp matching⟩
    · rw [if_neg matching]
      refine ⟨none, rfl, nofun, ?_⟩
      rintro _ other _ ⟨⟩ heldOther agree
      rw [heldKid, Option.some.injEq] at heldOther
      subst heldOther
      exact matching ((matchesKey_iff shape).mpr agree)

theorem lookupFrom_ok (linked : Linked trie) (key : BitVec w) {turns : Nat}
    (held : trie.cell address = some node) (agree : Agree (width node) key node.key) (enough : w < turns + width node)
    (under : ∀ other entry, entryAt trie other = some entry → entry.Matches key → Below trie address other) :
    ∃ found, trie.lookupFrom key turns address = .ok found ∧ Shortest (entryAt trie) key found := by
  induction turns generalizing address node with
  | zero =>
    have short := (linked.nodes address node held).shape.short
    omega
  | succ turns ih =>
    simp only [Trie.lookupFrom, read_of_cell held, ok_bind]
    cases stored : node.value with
    | some value =>
      refine ⟨some address, rfl, .found (entryAt_some.mpr ⟨node, value, held, stored, rfl⟩) agree ?_⟩
      intro other entry' held' matching different
      obtain ⟨otherNode, _, heldOther, _, rfl⟩ := entryAt_some.mp held'
      exact (below_extends linked (under other _ held' matching) held heldOther).2.2 different
    | none =>
      -- an entry that matches is under a kid that matches, and there is but one such kid
      have through : ∀ other entry, entryAt trie other = some entry → entry.Matches key →
          ∃ leg kid kidNode, node.kid leg = some kid ∧ trie.cell kid = some kidNode ∧ Agree (width kidNode) key kidNode.key ∧
            Below trie kid other := by
        intro other entry held' matching
        obtain ⟨otherNode, value, heldOther, stored', rfl⟩ := entryAt_some.mp held'
        obtain rfl | ⟨_, leg, kid, heldTop, points, below⟩ := below_cases (under other _ held' matching)
        · rw [held, Option.some.injEq] at heldOther
          subst heldOther
          rw [stored] at stored'
          cases stored'
        · rw [held, Option.some.injEq] at heldTop
          subst heldTop
          obtain ⟨kidNode, heldKid, _⟩ := linked.kid_held held points
          obtain ⟨carried, longer, _⟩ := below_extends linked below heldKid heldOther
          exact ⟨leg, kid, kidNode, points, heldKid, (matching.mono longer).trans carried, below⟩
      have only : ∀ {leg kid kidNode leg' kid' kidNode'}, node.kid leg = some kid → trie.cell kid = some kidNode →
          Agree (width kidNode) key kidNode.key → node.kid leg' = some kid' → trie.cell kid' = some kidNode' →
          Agree (width kidNode') key kidNode'.key → kid' = kid := by
        intro leg kid kidNode leg' kid' kidNode' points heldKid agreeKid points' heldKid' agreeKid'
        by_cases same : leg' = leg
        · rw [same, points, Option.some.injEq] at points'
          exact points'.symm
        · have differ := (linked.nodes address node held).apart same points' points heldKid' heldKid
          obtain ⟨_, found, _, extension⟩ := linked.kid_held held points
          obtain ⟨_, found', _, extension'⟩ := linked.kid_held held points'
          rw [heldKid, Option.some.injEq] at found
          rw [heldKid', Option.some.injEq] at found'
          subst found found'
          exact absurd ((agreeKid' _ extension'.longer).symm.trans (agreeKid _ extension.longer)) differ
      have onward : ∀ {leg kid kidNode}, node.kid leg = some kid → trie.cell kid = some kidNode → Extends node kidNode →
          Agree (width kidNode) key kidNode.key →
          ∃ found, trie.lookupFrom key turns kid = .ok found ∧ Shortest (entryAt trie) key found := by
        intro leg kid kidNode points heldKid extension agreeKid
        refine ih heldKid agreeKid (by have := extension.longer; omega) ?_
        intro other entry held' matching
        obtain ⟨leg', kid', kidNode', points', heldKid', agreeKid', below⟩ := through other entry held' matching
        rw [only points heldKid agreeKid points' heldKid' agreeKid'] at below
        exact below
      obtain ⟨first, searched, hit, miss⟩ := kidMatches_ok linked held false key
      obtain ⟨second, searched', hit', miss'⟩ := kidMatches_ok linked held true key
      rw [show node.kid0 = node.kid false from rfl, show node.kid1 = node.kid true from rfl, searched, searched']
      cases first with
      | some kid =>
        obtain ⟨points, kidNode, heldKid, extension, agreeKid⟩ := hit kid rfl
        exact onward points heldKid extension agreeKid
      | none =>
        cases second with
        | some kid =>
          obtain ⟨points, kidNode, heldKid, extension, agreeKid⟩ := hit' kid rfl
          exact onward points heldKid extension agreeKid
        | none =>
          refine ⟨none, rfl, .missing fun other entry held' matching => ?_⟩
          obtain ⟨leg, kid, kidNode, points, heldKid, agreeKid, _⟩ := through other entry held' matching
          cases leg with
          | false => exact miss rfl kid kidNode points heldKid agreeKid
          | true => exact miss' rfl kid kidNode points heldKid agreeKid

theorem lookupHandle_ok (linked : Linked trie) (key : BitVec w) :
    ∃ found, trie.lookupHandle key = .ok found ∧ Shortest (entryAt trie) key found := by
  obtain ⟨_, held, _, _, top⟩ := linked.head
  refine lookupFrom_ok linked key held (by rw [top]; exact nofun) (by omega) ?_
  intro other entry held' _
  obtain ⟨_, _, heldOther, _⟩ := entryAt_some.mp held'
  exact below_head linked heldOther

theorem widthMask_eq (short : n ≤ w) : widthMask w n = prefixMask w n := by
  unfold widthMask
  split
  · rfl
  · rw [prefixMask, show w - n = 0 by omega, BitVec.shiftLeft_zero]

theorem goesAfter_ok (linked : Linked trie) (held : trie.cell address = some node) (leg : Bool) (key : BitVec w) (short : n ≤ w) :
    ∃ next, trie.goesAfter (node.kid leg) key (prefixMask w n) = .ok next ∧
      (∀ kid, next = some kid → node.kid leg = some kid ∧ ∃ kidNode, trie.cell kid = some kidNode ∧ Extends node kidNode ∧
        Agree (width kidNode) key kidNode.key ∧ width kidNode ≤ n) ∧
      (next = none → ∀ kid kidNode, node.kid leg = some kid → trie.cell kid = some kidNode →
        Agree (width kidNode) key kidNode.key → n < width kidNode) := by
  cases points : node.kid leg with
  | none => exact ⟨none, rfl, nofun, nofun⟩
  | some kid =>
    obtain ⟨kidNode, heldKid, _, extension⟩ := linked.kid_held held points
    have shape := (linked.nodes kid kidNode heldKid).shape
    have masks : kidNode.mask &&& prefixMask w n = kidNode.mask ↔ width kidNode ≤ n := by
      rw [shape.mask]
      exact mask_and_mask_iff shape.short short
    have test : (kidNode.matchesKey key && kidNode.mask &&& prefixMask w n == kidNode.mask) = true ↔
        Agree (width kidNode) key kidNode.key ∧ width kidNode ≤ n := by
      rw [Bool.and_eq_true, beq_iff_eq, masks, matchesKey_iff shape]
    simp only [Trie.goesAfter, read_of_cell heldKid, ok_bind]
    by_cases after : Agree (width kidNode) key kidNode.key ∧ width kidNode ≤ n
    · rw [if_pos (test.mpr after)]
      refine ⟨some kid, rfl, ?_, nofun⟩
      rintro _ ⟨⟩
      exact ⟨rfl, kidNode, heldKid, extension, after⟩
    · rw [if_neg (mt test.mp after)]
      refine ⟨none, rfl, nofun, ?_⟩
      rintro _ _ _ ⟨⟩ heldOther agree
      rw [heldKid, Option.some.injEq] at heldOther
      subst heldOther
      exact Nat.lt_of_not_le fun longer => after ⟨agree, longer⟩

/-- Where the new prefix `key` of `n` bits belongs: under a prefix of it, with no kid
that is one. -/
structure Place (trie : Trie w V) (key : BitVec w) (n : Nat) (address : Nat) (node : TrieNode w V) : Prop where
  held : trie.cell address = some node
  agree : Agree (width node) key node.key
  above : width node ≤ n
  past : ∀ leg kid kidNode, node.kid leg = some kid → trie.cell kid = some kidNode →
    Agree (width kidNode) key kidNode.key → n < width kidNode

variable {trie : Trie w V}

theorem walk_ok (linked : Linked trie) (key : BitVec w) {n : Nat} (short : n ≤ w) {turns address : Nat}
    {node : TrieNode w V} (held : trie.cell address = some node) (agree : Agree (width node) key node.key)
    (above : width node ≤ n) (enough : n < turns + width node) :
    ∃ place placeNode, trie.walk key (prefixMask w n) turns address = .ok place ∧ Place trie key n place placeNode := by
  induction turns generalizing address node with
  | zero => omega
  | succ _ ih =>
    obtain ⟨first, searched, hit, miss⟩ := goesAfter_ok linked held false key short
    obtain ⟨second, searched', hit', miss'⟩ := goesAfter_ok linked held true key short
    simp only [Trie.walk, read_of_cell held, ok_bind]
    rw [show node.kid0 = node.kid false from rfl, show node.kid1 = node.kid true from rfl, searched, searched']
    cases first with
    | some kid =>
      obtain ⟨_, kidNode, heldKid, extension, agreeKid, shorter⟩ := hit kid rfl
      exact ih heldKid agreeKid shorter (by have := extension.longer; omega)
    | none =>
      cases second with
      | some kid =>
        obtain ⟨_, kidNode, heldKid, extension, agreeKid, shorter⟩ := hit' kid rfl
        exact ih heldKid agreeKid shorter (by have := extension.longer; omega)
      | none =>
        refine ⟨address, node, rfl, held, agree, above, ?_⟩
        intro leg kid kidNode points heldKid agreeKid
        cases leg with
        | false => exact miss rfl kid kidNode points heldKid agreeKid
        | true => exact miss' rfl kid kidNode points heldKid agreeKid

theorem walkLeg_ok {key kidKey : BitVec w} {n : Nat} (short : n ≤ w) {turns d : Nat} (agree : Agree d key kidKey)
    (above : d ≤ n) (enough : n < turns + d) :
    ∃ m, walkLeg key kidKey (prefixMask w n) turns (prefixMask w d) = .ok (prefixMask w m) ∧ d ≤ m ∧ m ≤ n ∧
      Agree m key kidKey ∧ (m = n ∨ key.getMsbD m ≠ kidKey.getMsbD m) := by
  induction turns generalizing d with
  | zero => omega
  | succ _ ih =>
    unfold walkLeg
    by_cases whole : d = n
    · subst whole
      exact ⟨d, by simp, Nat.le_refl d, Nat.le_refl d, agree, .inl rfl⟩
    · have shorter : d < w := by omega
      have unequal : prefixMask w d ≠ prefixMask w n := fun same => whole (prefixMask_inj (by omega) short same)
      simp only [extendMask, extend_prefixMask shorter]
      by_cases apart : key.getMsbD d = kidKey.getMsbD d
      · have longer : Agree (d + 1) key kidKey := agree_succ.mpr ⟨agree, apart⟩
        obtain ⟨m, walked, further, rest⟩ := ih longer (by omega) (by omega)
        refine ⟨m, ?_, Nat.le_of_succ_le further, rest⟩
        rw [if_neg (by simp [(mask_eq_iff shorter).mpr longer, unequal])]
        exact walked
      · refine ⟨d, ?_, Nat.le_refl d, above, agree, .inr apart⟩
        have differ : key &&& prefixMask w (d + 1) ≠ kidKey &&& prefixMask w (d + 1) := by
          rw [Ne, mask_eq_iff shorter, agree_succ]
          exact fun both => apart both.2
        rw [if_pos (by simp [differ])]

def newNode (key : BitVec w) (n : Nat) (value : Option V) (parent : Nat) (kid0 : Option Nat) : TrieNode w V :=
  { key := key &&& prefixMask w n, mask := prefixMask w n, value, parent := some parent, kid0 }

theorem newNode_width (short : n ≤ w) (value : Option V) (parent : Nat) (kid0 : Option Nat) : width (newNode key n value parent kid0) = n :=
  maskWidth_prefixMask short

theorem newNode_shape (short : n ≤ w) (value : Option V) (parent : Nat) (kid0 : Option Nat) : Shape (newNode key n value parent kid0) := by
  refine ⟨?_, ?_, (mask_eq_iff short).mpr (agree_mask short key)⟩
  · rw [newNode_width short]
    exact short
  · rw [newNode_width short]
    rfl

theorem newNode_extends (short : n ≤ w) (longer : width node < n)
    (agree : Agree (width node) key node.key) (value : Option V) (parent : Nat) (kid0 : Option Nat) :
    Extends node (newNode key n value parent kid0) := by
  constructor
  · rw [newNode_width short]
    exact longer
  · exact ((agree_mask short key).mono (Nat.le_of_lt longer)).trans agree

theorem newNode_bit {m : Nat} (short : n ≤ w) (inside : m < n) (value : Option V) (parent : Nat)
    (kid0 : Option Nat) : (newNode key n value parent kid0).key.getMsbD m = key.getMsbD m :=
  agree_mask short key m inside

theorem nodeEntry_congr {after : TrieNode w V} (alike : Alike node after) (value : after.value = node.value) :
    nodeEntry after = nodeEntry node := by
  rw [nodeEntry, nodeEntry, alike.key, alike.width, value]

theorem entryAt_setValue (value : Option V) (other : Nat) : entryAt (trie.write address { node with value }) other =
      if other = address then value.map fun value => ⟨node.key, width node, value⟩ else entryAt trie other := by
  rw [entryAt, Heap.write_cell]
  split
  · rfl
  · rfl

theorem entryAt_withLeaf {leaf : TrieNode w V} (held : trie.cell address = some node)
    (fresh : address ≠ trie.next) (leg : Bool) (other : Nat) :
    entryAt (withLeaf trie address node leg leaf) other = if other = trie.next then nodeEntry leaf else entryAt trie other := by
  rw [entryAt, withLeaf_cell]
  by_cases here : other = address
  · subst here
    rw [if_pos rfl, if_neg fresh, entryAt, held]
    exact nodeEntry_congr (setKid_alike _ _ _) (setKid_value _ _ _)
  · rw [if_neg here]
    split <;> rfl

theorem entryAt_withInner (held : trie.cell address = some node) (heldKid : trie.cell kid = some kidNode) (fresh : address ≠ trie.next)
    (freshKid : kid ≠ trie.next) (leg : Bool) (other : Nat) :
    entryAt (withInner trie address node leg kid kidNode inner) other =
      if other = trie.next then nodeEntry inner else entryAt trie other := by
  rw [entryAt, withInner_cell]
  by_cases here : other = address
  · subst here
    rw [if_pos rfl, if_neg fresh, entryAt, held]
    exact nodeEntry_congr (setKid_alike _ _ _) (setKid_value _ _ _)
  · rw [if_neg here]
    by_cases there : other = kid
    · subst there
      rw [if_pos rfl, if_neg freshKid, entryAt, heldKid]
      rfl
    · rw [if_neg there]
      split <;> rfl

structure Added (trie after : Trie w V) (handle : Nat) (entry : Entry w V) : Prop where
  valid : Valid after
  free : entryAt trie handle = none
  entries : ∀ other, entryAt after other = if other = handle then some entry else entryAt trie other

theorem setValue_added (linked : Linked trie)
    (useful : ∀ other object, trie.cell other = some object → other ≠ address → Useful other object)
    (held : trie.cell address = some node) (inner : address ≠ Trie.head) (bare : node.value = none) (value : V) :
    Added trie (trie.write address { node with value := some value }) address ⟨node.key, width node, value⟩ := by
  refine ⟨⟨setValue_linked linked held fun top => absurd top inner, ?_⟩, ?_, entryAt_setValue _⟩
  · intro other object found
    rw [Heap.write_cell] at found
    split at found
    · cases found
      exact fun _ none_ => absurd none_ nofun
    · exact useful other object found ‹_›
  · rw [entryAt, held, bind_some, nodeEntry, bare]
    rfl

theorem withLeaf_added (linked : Linked trie) {address : Nat} {node leaf : TrieNode w V} {leg : Bool}
    (useful : ∀ other object, trie.cell other = some object → other ≠ address → Useful other object)
    (here : leg = false → Useful address node)
    (held : trie.cell address = some node) (free : node.kid leg = none) (shape : Shape leaf) (up : leaf.parent = some address)
    (bare : leaf.kid0 = none ∧ leaf.kid1 = none) {value : V} (stored : leaf.value = some value) (extension : Extends node leaf)
    (apart : leg = true → ∃ first firstNode, node.kid0 = some first ∧ trie.cell first = some firstNode ∧
      firstNode.key.getMsbD (width node) ≠ leaf.key.getMsbD (width node)) :
    Added trie (withLeaf trie address node leg leaf) trie.next ⟨leaf.key, width leaf, value⟩ := by
  have fresh : address ≠ trie.next := Nat.ne_of_lt (linked.bounded _ _ held)
  refine ⟨⟨withLeaf_linked linked held free shape up bare extension apart, ?_⟩, ?_, ?_⟩
  · intro other object found
    rw [withLeaf_cell] at found
    split at found
    · next same =>
      cases found
      cases leg with
      | false => exact fun lower none_ => here rfl (same ▸ lower) none_
      | true => exact fun _ _ => rfl
    · split at found
      · cases found
        exact fun _ none_ => absurd (stored.symm.trans none_) nofun
      · exact useful other object found ‹_›
  · rw [entryAt, linked.bounded.fresh]
    rfl
  · intro other
    rw [entryAt_withLeaf held fresh, nodeEntry, stored]
    rfl

theorem insertLeg_leaf (valid : Valid trie) (short : n ≤ w) (here : Place trie key n place node) (strict : width node < n) (val : V)
    (points : node.kid leg = none)
    (turn : leg = true → ∃ first firstNode, node.kid0 = some first ∧ trie.cell first = some firstNode ∧
      firstNode.key.getMsbD (width node) ≠ key.getMsbD (width node)) :
    ∃ after handle, trie.insertLeg place leg key (prefixMask w n) val = .ok (some (after, handle)) ∧
      Added trie after handle ⟨key &&& prefixMask w n, n, val⟩ := by
  have linked := valid.linked
  have held := here.held
  have fresh : place ≠ trie.next := Nat.ne_of_lt (linked.bounded _ _ held)
  refine ⟨withLeaf trie place node leg (newNode key n (some val) place none), trie.next, ?_, ?_⟩
  · have kept : (trie.alloc (newNode key n (some val) place none)).1.cell place = some node := by
      rw [Heap.alloc_cell, if_neg fresh]
      exact held
    unfold Trie.insertLeg
    rw [read_of_cell held, ok_bind]
    rw [points]
    exact congrArg (· >>= fun after => pure (some (after, trie.next))) (modify_of_cell kept _)
  · have added := withLeaf_added linked (fun other object found _ => valid.useful other object found)
      (fun _ => valid.useful place node held) held points (newNode_shape short _ _ _) rfl ⟨rfl, rfl⟩ rfl
      (newNode_extends short strict here.agree (some val) place none) ?_
    · rw [newNode_width short] at added
      exact added
    · intro right
      obtain ⟨first, firstNode, points', heldFirst, differ⟩ := turn right
      refine ⟨first, firstNode, points', heldFirst, ?_⟩
      rw [newNode_bit short strict]
      exact differ

theorem interpose_ok (linked : Linked trie) {place kid : Nat} {node kidNode inner : TrieNode w V} {leg : Bool}
    (held : trie.cell place = some node) (points : node.kid leg = some kid) (heldKid : trie.cell kid = some kidNode) :
    ∃ first second, (trie.alloc inner).1.modify kid ({ · with parent := some trie.next }) = .ok first ∧
      first.modify trie.next ({ · with kid0 := some kid }) = .ok second ∧
      second.modify place (·.setKid leg (some trie.next)) =
        .ok (withInner trie place node leg kid kidNode { inner with kid0 := some kid }) := by
  have fresh : place ≠ trie.next := Nat.ne_of_lt (linked.bounded _ _ held)
  have freshKid : kid ≠ trie.next := Nat.ne_of_lt (linked.bounded _ _ heldKid)
  have apart : kid ≠ place := linked.kid_ne_self held points
  have kept : (trie.alloc inner).1.cell kid = some kidNode := by
    rw [Heap.alloc_cell, if_neg freshKid]
    exact heldKid
  have made : ((trie.alloc inner).1.write kid { kidNode with parent := some trie.next }).cell trie.next = some inner := by
    rw [Heap.write_cell, if_neg freshKid.symm, Heap.alloc_cell, if_pos rfl]
  have above : (((trie.alloc inner).1.write kid { kidNode with parent := some trie.next }).write trie.next
      { inner with kid0 := some kid }).cell place = some node := by
    rw [Heap.write_cell, if_neg fresh, Heap.write_cell, if_neg apart.symm, Heap.alloc_cell, if_neg fresh]
    exact held
  refine ⟨_, _, modify_of_cell kept _, modify_of_cell made _, (modify_of_cell above _).trans ?_⟩
  refine congrArg _ (Heap.ext (funext fun other => ?_) rfl)
  simp only [Heap.write_cell, Heap.alloc_cell, withInner_cell]
  by_cases one : other = place
  · rw [if_pos one, if_pos one]
  · rw [if_neg one, if_neg one]
    by_cases two : other = trie.next
    · rw [if_pos two, if_neg (two ▸ freshKid.symm), if_pos two]
    · rw [if_neg two, if_neg two, if_neg two]

/-- The tree between the two halves of an insertion: a new inner node that is not yet
of use, and nothing else that a user could notice. -/
structure Opened (trie opened : Trie w V) (inner : TrieNode w V) : Prop where
  linked : Linked opened
  held : opened.cell trie.next = some inner
  bare : inner.value = none
  useful : ∀ other object, opened.cell other = some object → other ≠ trie.next → Useful other object
  entries : ∀ other, entryAt opened other = entryAt trie other
  lower : trie.next ≠ Trie.head

theorem withInner_opened (valid : Valid trie) (held : trie.cell place = some node) (points : node.kid leg = some kid)
    (heldKid : trie.cell kid = some kidNode) (shape : Shape inner) (up : inner.parent = some place)
    (left : inner.kid0 = some kid) (right : inner.kid1 = none) (bare : inner.value = none) (above : Extends node inner)
    (below : Extends inner kidNode) : Opened trie (withInner trie place node leg kid kidNode inner) inner := by
  have linked := valid.linked
  have cell := withInner_cell trie place node leg kid kidNode inner
  have fresh : place ≠ trie.next := Nat.ne_of_lt (linked.bounded _ _ held)
  have freshKid : kid ≠ trie.next := Nat.ne_of_lt (linked.bounded _ _ heldKid)
  constructor
  · exact withInner_linked linked held points heldKid shape up left right above below
  · rw [cell, if_neg fresh.symm, if_neg freshKid.symm, if_pos rfl]
  · exact bare
  · intro other object found different
    rw [cell] at found
    split at found
    · next same =>
      cases found
      intro lower none_
      have kept := valid.useful place node held (same ▸ lower) (by rw [← none_, setKid_value])
      cases leg with
      | false => exact kept
      | true => rfl
    · split at found
      · cases found
        exact fun lower none_ => valid.useful kid kidNode heldKid (linked.kid_ne_head held points) none_
      · exact valid.useful other object found
  · intro other
    rw [entryAt_withInner held heldKid fresh freshKid]
    split
    · next same => rw [same, nodeEntry, bare, entryAt, linked.bounded.fresh]; rfl
    · rfl
  · obtain ⟨_, heldHead, _⟩ := linked.head
    exact (Nat.ne_of_lt (linked.bounded _ _ heldHead)).symm

theorem Added.of_opened {opened : Trie w V} (between : Opened trie opened inner)
    (added : Added opened after handle entry) : Added trie after handle entry := by
  refine ⟨added.valid, ?_, fun _ => ?_⟩
  · rw [← between.entries]
    exact added.free
  · rw [added.entries, between.entries]

theorem insertLeg_inner (valid : Valid trie) {m : Nat} (short : n ≤ w) (here : Place trie key n place node) (val : V)
    (points : node.kid leg = some kid) (heldKid : trie.cell kid = some kidNode) (longer : width node < m) (shorter : m ≤ n)
    (agree : Agree m key kidNode.key) (parted : m = n ∨ key.getMsbD m ≠ kidNode.key.getMsbD m)
    (walked : walkLeg key kidNode.key (prefixMask w n) (w + 1) node.mask = .ok (prefixMask w m)) :
    ∃ after handle, trie.insertLeg place leg key (prefixMask w n) val = .ok (some (after, handle)) ∧
      Added trie after handle ⟨key &&& prefixMask w n, n, val⟩ := by
  have linked := valid.linked
  have held := here.held
  have fit : m ≤ w := Nat.le_trans shorter short
  -- a kid that agrees to its end would have been walked past
  have below : m < width kidNode := by
    refine Nat.lt_of_not_le fun whole => ?_
    have past := here.past leg kid kidNode points heldKid (agree.mono whole)
    omega
  have shape := (linked.nodes place node held).shape
  have entered : (prefixMask w m == node.mask) = false := by
    rw [beq_eq_false_iff_ne, shape.mask]
    intro same
    have equal := prefixMask_inj fit shape.short same
    omega
  have under : Extends (newNode key m (none : Option V) place (some kid)) kidNode := by
    constructor
    · rw [newNode_width fit]
      exact below
    · rw [newNode_width fit]
      exact ((agree_mask fit key).trans agree).symm
  have between := withInner_opened valid held points heldKid (newNode_shape fit none place (some kid)) rfl rfl rfl rfl
    (newNode_extends fit longer here.agree none place (some kid)) under
  obtain ⟨_, second, wrote, wrote', wrote''⟩ :=
    @interpose_ok w V trie linked place kid node kidNode (newNode key m none place none) leg held points heldKid
  generalize opened : withInner trie place node leg kid kidNode (newNode key m none place (some kid)) = mid at between
  have wrote'' : second.modify place (·.setKid leg (some trie.next)) = .ok mid := wrote''.trans (congrArg _ opened)
  have size : mid.next = trie.next + 1 := by rw [← opened]; rfl
  have heldKid' : mid.cell kid = some { kidNode with parent := some trie.next } := by
    rw [← opened, withInner_cell, if_neg (linked.kid_ne_self held points), if_pos rfl]
  have enter : trie.insertLeg place leg key (prefixMask w n) val = if prefixMask w m == prefixMask w n then
        mid.modify trie.next ({ · with value := some val }) >>= fun after => .ok (some (after, trie.next))
      else
        (mid.alloc (newNode key n (some val) trie.next none)).1.modify trie.next ({ · with kid1 := some mid.next }) >>=
          fun after => .ok (some (after, mid.next)) := by
    unfold Trie.insertLeg
    rw [read_of_cell held, ok_bind]
    rw [points]
    dsimp only
    rw [read_of_cell heldKid, ok_bind, walked, ok_bind, entered, if_neg Bool.false_ne_true]
    exact (bind_of_ok wrote _).trans ((bind_of_ok wrote' _).trans (bind_of_ok wrote'' _))
  rw [enter]
  by_cases whole : m = n
  · subst whole
    rw [if_pos (beq_self_eq_true _), modify_of_cell between.held]
    refine ⟨_, trie.next, rfl, Added.of_opened between ?_⟩
    have added := setValue_added between.linked between.useful between.held between.lower between.bare val
    rw [newNode_width fit] at added
    exact added
  · have unequal : (prefixMask w m == prefixMask w n) = false := by
      rw [beq_eq_false_iff_ne]
      exact fun same => whole (prefixMask_inj fit short same)
    have fresh : trie.next ≠ mid.next := by omega
    have kept : (mid.alloc (newNode key n (some val) trie.next none)).1.cell trie.next =
        some (newNode key m none place (some kid)) := by
      rw [Heap.alloc_cell, if_neg fresh]
      exact between.held
    rw [unequal, if_neg Bool.false_ne_true, modify_of_cell kept]
    refine ⟨_, mid.next, rfl, Added.of_opened between ?_⟩
    have strict : width (newNode key m (none : Option V) place (some kid)) < n := by
      rw [newNode_width fit]
      omega
    have carried : Agree (width (newNode key m (none : Option V) place (some kid))) key
        (newNode key m (none : Option V) place (some kid)).key := by
      rw [newNode_width fit]
      exact (agree_mask fit key).symm
    have added := @withLeaf_added w V mid between.linked trie.next _ (newNode key n (some val) trie.next none) true
      between.useful nofun between.held rfl (newNode_shape short _ _ _) rfl ⟨rfl, rfl⟩ val rfl
      (newNode_extends short strict carried (some val) trie.next none) ?_
    · rw [newNode_width short] at added
      exact added
    · refine fun _ => ⟨kid, _, rfl, heldKid', ?_⟩
      rw [newNode_bit short strict, newNode_width fit]
      exact (parted.resolve_left whole).symm

theorem insertLeg_ok (valid : Valid trie) (short : n ≤ w)
    (here : Place trie key n place node) (strict : width node < n) (leg : Bool) (val : V)
    (turn : leg = true → ∃ first firstNode, node.kid0 = some first ∧ trie.cell first = some firstNode ∧
      firstNode.key.getMsbD (width node) ≠ key.getMsbD (width node)) :
    (∃ after handle, trie.insertLeg place leg key (prefixMask w n) val = .ok (some (after, handle)) ∧
      Added trie after handle ⟨key &&& prefixMask w n, n, val⟩) ∨
    (trie.insertLeg place leg key (prefixMask w n) val = .ok none ∧ ∃ kid kidNode, node.kid leg = some kid ∧
      trie.cell kid = some kidNode ∧ kidNode.key.getMsbD (width node) ≠ key.getMsbD (width node)) := by
  cases points : node.kid leg with
  | none => exact .inl (insertLeg_leaf valid short here strict val points turn)
  | some kid =>
    have held := here.held
    have shape := (valid.linked.nodes place node held).shape
    obtain ⟨kidNode, heldKid, _, extension⟩ := valid.linked.kid_held held points
    have start : Agree (width node) key kidNode.key := here.agree.trans extension.agree.symm
    obtain ⟨m, walked, _, shorter, agree, parted⟩ := @walkLeg_ok w key kidNode.key n short (w + 1) _ start here.above (by omega)
    rw [← shape.mask] at walked
    by_cases skips : m = width node
    · refine .inr ⟨?_, kid, kidNode, rfl, heldKid, ?_⟩
      · unfold Trie.insertLeg
        rw [read_of_cell held, ok_bind]
        rw [points]
        dsimp only
        rw [read_of_cell heldKid, ok_bind, walked, ok_bind, skips, ← shape.mask, if_pos (beq_self_eq_true _)]
        rfl
      · rw [← skips]
        exact (parted.resolve_left (by omega)).symm
    · exact .inl (insertLeg_inner valid short here val points heldKid (by omega) shorter agree parted walked)

/-- Two stored entries never have the same prefix and width, and a third is not let in. -/
def Absent (stored : Nat → Option (Entry w V)) (key : BitVec w) (n : Nat) : Prop :=
  ∀ handle entry, stored handle = some entry → entry.width = n → ¬entry.Matches key

theorem insert_ok (valid : Valid trie) (key : BitVec w) {n : Nat} (positive : 1 ≤ n) (short : n ≤ w) (val : V)
    (absent : Absent (entryAt trie) key n) :
    ∃ after handle, trie.insert key n val = .ok (after, handle) ∧ Added trie after handle ⟨key &&& prefixMask w n, n, val⟩ := by
  have linked := valid.linked
  obtain ⟨_, heldHead, _, _, top⟩ := linked.head
  have tidy : key &&& prefixMask w n &&& prefixMask w n = key &&& prefixMask w n := by
    rw [BitVec.and_assoc, BitVec.and_self]
  obtain ⟨place, node, walked, here⟩ := @walk_ok w V trie linked (key &&& prefixMask w n) n short (w + 1) _ _ heldHead
    (by rw [top]; exact nofun) (by omega) (by omega)
  have held := here.held
  have shape := (linked.nodes place node held).shape
  unfold Trie.insert
  dsimp only
  rw [widthMask_eq short, walked, ok_bind, read_of_cell held, ok_bind]
  by_cases whole : width node = n
  · have masks : (node.mask == prefixMask w n) = true := by rw [shape.mask, whole, beq_self_eq_true]
    have bare : node.value = none := by
      -- a value here would be an entry with the new prefix
      by_contra stored
      obtain ⟨value, stored⟩ := ne_none_iff_exists'.mp stored
      refine absent place _ (entryAt_some.mpr ⟨node, value, held, stored, rfl⟩) whole ?_
      have agree := here.agree
      rw [whole] at agree
      rw [Entry.Matches]
      rw [whole]
      exact (agree_mask short key).symm.trans agree
    have lower : place ≠ Trie.head := by
      rintro rfl
      rw [heldHead, Option.some.injEq] at held
      subst held
      omega
    have key_eq : node.key = key &&& prefixMask w n := by
      have agree := here.agree
      have clean := shape.key
      rw [shape.mask, whole] at clean
      rw [whole, ← mask_eq_iff short, tidy, clean] at agree
      exact agree.symm
    rw [if_pos masks, bare]
    refine ⟨trie.write place { node with value := some val }, place, ?_, ?_⟩
    · rw [modify_of_cell held]
      rfl
    · have added := setValue_added linked (fun other object found _ => valid.useful other object found) held lower bare val
      rw [whole] at added
      rw [← key_eq]
      exact added
  · have strict : width node < n := Nat.lt_of_le_of_ne here.above whole
    have masks : ¬(node.mask == prefixMask w n) = true := by
      rw [beq_iff_eq, shape.mask]
      exact fun same => whole (prefixMask_inj shape.short short same)
    rw [if_neg masks]
    obtain ⟨after, handle, inserted, added⟩ | ⟨skipped, first, firstNode, points, heldFirst, differ⟩ :=
      insertLeg_ok valid short here strict false val nofun
    · rw [tidy] at added
      exact ⟨after, handle, by rw [inserted]; rfl, added⟩
    · rw [skipped, ok_bind]
      obtain ⟨after, handle, inserted, added⟩ | ⟨_, second, secondNode, points', heldSecond, differ'⟩ :=
        insertLeg_ok valid short here strict true val fun _ => ⟨first, firstNode, points, heldFirst, differ⟩
      · rw [tidy] at added
        exact ⟨after, handle, by rw [inserted]; rfl, added⟩
      · -- the kids go both ways, so the new prefix follows one of them
        have apart := (linked.nodes place node held).split first second firstNode secondNode points points' heldFirst heldSecond
        rw [Bool.eq_not_of_ne differ, Bool.eq_not_of_ne differ'] at apart
        exact absurd rfl apart

theorem entryAt_bypassed
    (heldParent : trie.cell parent = some parentNode) (heldKid : trie.cell kid = some kidNode) (leg : Bool) (other : Nat) :
    entryAt (bypassed trie address parent parentNode leg kid kidNode) other =
      if other = address then none else entryAt trie other := by
  rw [entryAt, bypassed_cell]
  by_cases gone : other = address
  · rw [if_pos gone, if_pos gone]
    rfl
  · rw [if_neg gone, if_neg gone]
    by_cases here : other = parent
    · subst here
      rw [if_pos rfl, entryAt, heldParent]
      exact nodeEntry_congr (setKid_alike _ _ _) (setKid_value _ _ _)
    · rw [if_neg here]
      by_cases there : other = kid
      · subst there
        rw [if_pos rfl, entryAt, heldKid]
        rfl
      · rw [if_neg there]
        rfl

theorem entryAt_withoutLeaf (heldParent : trie.cell parent = some parentNode) (leg : Bool) (other : Nat) :
    entryAt (withoutLeaf trie address parent parentNode leg) other = if other = address then none else entryAt trie other := by
  rw [entryAt, withoutLeaf_cell]
  by_cases gone : other = address
  · rw [if_pos gone, if_pos gone]
    rfl
  · rw [if_neg gone, if_neg gone]
    by_cases here : other = parent
    · subst here
      rw [if_pos rfl, entryAt, heldParent, bind_some, bind_some, nodeEntry, nodeEntry, fillKid0_value,
        setKid_value, (fillKid0_alike _).key, (fillKid0_alike _).width, (setKid_alike _ _ _).key, (setKid_alike _ _ _).width]
    · rw [if_neg here]
      rfl

theorem fillKid0_full (full : node.kid0 ≠ none) : Trie.fillKid0 node = node := by
  unfold Trie.fillKid0
  rw [if_neg]
  simp [full]

theorem replaceKid_ok {now : Trie w V} (linked : Linked trie)
    (heldParent : trie.cell parent = some parentNode) (down : parentNode.kid leg = some address)
    (held : now.cell parent = some parentNode) (kid : Option Nat) :
    now.replaceKid parent address kid = .ok (now.write parent (parentNode.setKid leg kid)) := by
  unfold Trie.replaceKid
  rw [read_of_cell held, ok_bind]
  cases leg with
  | false =>
    have left : parentNode.kid0 = some address := down
    rw [if_pos left, modify_of_cell held]
    rfl
  | true =>
    have right : parentNode.kid1 = some address := down
    have other : parentNode.kid0 ≠ some address := by
      intro left
      exact Bool.false_ne_true (linked.one_leg heldParent down (show parentNode.kid false = some address from left))
    rw [if_neg other, if_pos right, modify_of_cell held]
    rfl

theorem unlink_bypass (linked : Linked trie) (held : trie.cell address = some node)
    (heldParent : trie.cell parent = some parentNode) (down : parentNode.kid leg = some address)
    (points : node.kid0 = some kid) (heldKid : trie.cell kid = some kidNode) :
    ∃ after, trie.unlink address node parent = .ok after ∧
      after.free address = bypassed trie address parent parentNode leg kid kidNode := by
  obtain ⟨_, found, _, above⟩ := linked.kid_held heldParent down
  rw [held, Option.some.injEq] at found
  subst found
  obtain ⟨_, found, _, below⟩ := linked.kid_held held (show node.kid false = some kid from points)
  rw [heldKid, Option.some.injEq] at found
  subst found
  have apart : parent ≠ kid := by
    rintro rfl
    rw [heldParent, Option.some.injEq] at heldKid
    subst heldKid
    exact absurd (Nat.lt_trans above.longer below.longer) (Nat.lt_irrefl _)
  have heldParent' : (trie.write kid { kidNode with parent := some parent }).cell parent = some parentNode := by
    rw [Heap.write_cell, if_neg apart]
    exact heldParent
  have full : (parentNode.setKid leg (some kid)).kid0 ≠ none := by
    cases leg with
    | false => exact nofun
    | true =>
      intro emptied
      exact absurd (((linked.nodes parent parentNode heldParent).filled emptied).symm.trans down) nofun
  refine ⟨(trie.write kid { kidNode with parent := some parent }).write parent (parentNode.setKid leg (some kid)), ?_, rfl⟩
  unfold Trie.unlink
  rw [points, Trie.adopt, modify_of_cell heldKid, ok_bind, replaceKid_ok linked heldParent down heldParent', ok_bind]
  have wrote : ((trie.write kid { kidNode with parent := some parent }).write parent (parentNode.setKid leg (some kid))).cell parent =
      some (parentNode.setKid leg (some kid)) := by
    rw [Heap.write_cell, if_pos rfl]
  rw [modify_of_cell wrote, fillKid0_full full, write_write]

theorem unlink_leaf (linked : Linked trie) (heldParent : trie.cell parent = some parentNode) (down : parentNode.kid leg = some address)
    (bare : node.kid0 = none) :
    ∃ after, trie.unlink address node parent = .ok after ∧
      after.free address = withoutLeaf trie address parent parentNode leg := by
  refine ⟨trie.write parent (Trie.fillKid0 (parentNode.setKid leg none)), ?_, rfl⟩
  unfold Trie.unlink
  have wrote : (trie.write parent (parentNode.setKid leg none)).cell parent = some (parentNode.setKid leg none) := by
    rw [Heap.write_cell, if_pos rfl]
  rw [bare, Trie.adopt, ok_bind, replaceKid_ok linked heldParent down heldParent, ok_bind, modify_of_cell wrote,
    write_write]

theorem adopt_of_free {kid : Option Nat} (ran : Trie.adopt (trie.free gone) kid parent = .ok after) :
    ∃ whole, trie.adopt kid parent = .ok whole ∧ whole.free gone = after := by
  cases kid with
  | none =>
    cases ran
    exact ⟨trie, rfl, rfl⟩
  | some => exact modify_of_free ran

theorem replaceKid_of_free {kid : Option Nat} (ran : Trie.replaceKid (trie.free gone) parent address kid = .ok after) :
    ∃ whole, trie.replaceKid parent address kid = .ok whole ∧ whole.free gone = after := by
  unfold Trie.replaceKid at ran ⊢
  obtain ⟨_, found, ran⟩ := of_bind ran
  rw [read_of_free found, ok_bind]
  split at ran
  · next left =>
    rw [if_pos left]
    exact modify_of_free ran
  · next other =>
    rw [if_neg other]
    split at ran
    · next right =>
      rw [if_pos right]
      exact modify_of_free ran
    · cases ran

theorem unlink_of_free (ran : Trie.unlink (trie.free gone) address node parent = .ok after) :
    ∃ whole, trie.unlink address node parent = .ok whole ∧ whole.free gone = after := by
  unfold Trie.unlink at ran ⊢
  obtain ⟨_, ran₁, ran⟩ := of_bind ran
  obtain ⟨_, ran₂, ran₃⟩ := of_bind ran
  obtain ⟨whole, adopted, rfl⟩ := adopt_of_free ran₁
  obtain ⟨_, replaced, rfl⟩ := replaceKid_of_free ran₂
  rw [adopted, ok_bind, replaced, ok_bind]
  exact modify_of_free ran₃

structure Removed (trie after : Trie w V) (handle : Nat) : Prop where
  valid : Valid after
  entries : ∀ other, entryAt after other = if other = handle then none else entryAt trie other

theorem clearValue_removed (valid : Valid trie) (held : trie.cell handle = some node) (parting : node.kid1.isSome) :
    Removed trie (trie.write handle { node with value := none }) handle := by
  refine ⟨⟨setValue_linked valid.linked held fun _ => rfl, ?_⟩, entryAt_setValue none⟩
  intro other object found
  rw [Heap.write_cell] at found
  split at found
  · cases found
    exact fun _ _ => parting
  · exact valid.useful other object found

theorem bypassed_removed (linked : Linked trie)
    (useful : ∀ other object, trie.cell other = some object → other ≠ address → Useful other object)
    (held : trie.cell address = some node) (heldParent : trie.cell parent = some parentNode) (down : parentNode.kid leg = some address)
    (only : node.kid1 = none) (points : node.kid0 = some kid) (heldKid : trie.cell kid = some kidNode) :
    Removed trie (bypassed trie address parent parentNode leg kid kidNode) address := by
  refine ⟨⟨bypassed_linked linked held heldParent down only points heldKid, ?_⟩, entryAt_bypassed heldParent heldKid leg⟩
  intro other object found
  rw [bypassed_cell] at found
  split at found
  · cases found
  · split at found
    · next same =>
      cases found
      intro lower none_
      have kept := useful parent parentNode heldParent (same ▸ ‹_›) (same ▸ lower) (by rw [← none_, setKid_value])
      cases leg with
      | false => exact kept
      | true => rfl
    · split at found
      · next same =>
        cases found
        exact useful kid kidNode heldKid (same ▸ ‹_›) ∘ fun lower => same ▸ lower
      · exact useful other object found ‹_›

theorem keeps_useful (linked : Linked trie) (held : trie.cell address = some node) :
    (node.kid1.isNone && node.value.isNone && node.parent.isSome) = false ↔ Useful address node := by
  by_cases top : address = Trie.head
  · obtain ⟨_, heldHead, root, _⟩ := linked.head
    rw [top, heldHead, Option.some.injEq] at held
    subst held
    exact iff_of_true (by simp [root]) fun lower => absurd top lower
  · obtain ⟨parent, _, _, up, _⟩ := (linked.nodes address node held).parent top
    rw [up]
    cases bare : node.value <;> cases parting : node.kid1 <;> simp [Useful, top, bare, parting]

theorem removeIn_stop {parentAfter : TrieNode w V}
    (read : trie.read address = .ok node) (only : node.kid1 = none) (up : node.parent = some parent)
    (unlinked : trie.unlink address node parent = .ok after) (readParent : after.read parent = .ok parentAfter)
    (stops : (parentAfter.kid1.isNone && parentAfter.value.isNone && parentAfter.parent.isSome) = false) (turns : Nat) :
    Trie.removeIn (turns + 1) trie address = .ok (after.free address, node.value) := by
  unfold Trie.removeIn
  rw [read, ok_bind, only, up, if_neg (by simp)]
  dsimp only
  rw [unlinked, ok_bind, readParent, ok_bind, stops, if_neg Bool.false_ne_true]
  rfl

theorem bypass_ok (linked : Linked trie) (useful : ∀ other object, trie.cell other = some object → other ≠ address → Useful other object)
    (held : trie.cell address = some node) (lower : address ≠ Trie.head) (only : node.kid1 = none) (points : node.kid0 = some kid) :
    ∃ after parent parentAfter, node.parent = some parent ∧ trie.unlink address node parent = .ok after ∧
      after.read parent = .ok parentAfter ∧
      (parentAfter.kid1.isNone && parentAfter.value.isNone && parentAfter.parent.isSome) = false ∧
      Removed trie (after.free address) address := by
  obtain ⟨parent, parentNode, leg, up, heldParent, down⟩ := (linked.nodes address node held).parent lower
  obtain ⟨_, heldKid, _⟩ := linked.kid_held held (show node.kid false = some kid from points)
  have removed := bypassed_removed linked useful held heldParent down only points heldKid
  obtain ⟨after, unlinked, freed⟩ := unlink_bypass linked held heldParent down points heldKid
  have apart : parent ≠ address := (linked.kid_ne_self heldParent down).symm
  have heldAfter : (after.free address).cell parent = some (parentNode.setKid leg (some kid)) := by
    rw [freed, bypassed_cell, if_neg apart, if_pos rfl]
  rw [← freed] at removed
  exact ⟨after, parent, _, up, unlinked, read_of_free (read_of_cell heldAfter),
    (keeps_useful removed.valid.linked heldAfter).mpr (removed.valid.useful parent _ heldAfter), removed⟩

/-- What becomes of the tree when a leaf is taken off. Only its parent may be left
without a use. -/
structure Unlinked (trie after : Trie w V) (address parent : Nat) : Prop where
  linked : Linked after
  entries : ∀ other, entryAt after other = if other = address then none else entryAt trie other
  useful : ∀ other object, after.cell other = some object → other ≠ parent → Useful other object

theorem withoutLeaf_unlinked (valid : Valid trie) (held : trie.cell address = some node) (heldParent : trie.cell parent = some parentNode)
    (down : parentNode.kid leg = some address) (bare : node.kid0 = none) :
    Unlinked trie (withoutLeaf trie address parent parentNode leg) address parent := by
  refine ⟨withoutLeaf_linked valid.linked held heldParent down bare, entryAt_withoutLeaf heldParent leg, ?_⟩
  intro other object found different
  rw [withoutLeaf_cell] at found
  split at found
  · cases found
  · exact valid.useful other object found

theorem remove_leaf (valid : Valid trie)
    (held : trie.cell address = some node) (lower : address ≠ Trie.head) (bare : node.kid0 = none) {turns : Nat} :
    ∃ after, Trie.removeIn (turns + 2) trie address = .ok (after, node.value) ∧ Removed trie after address := by
  have linked := valid.linked
  have only := (linked.nodes address node held).filled bare
  obtain ⟨parent, parentNode, leg, up, heldParent, down⟩ := (linked.nodes address node held).parent lower
  have apart : parent ≠ address := (linked.kid_ne_self heldParent down).symm
  have unlinked := withoutLeaf_unlinked valid held heldParent down bare
  obtain ⟨part, ran, freed⟩ := unlink_leaf linked heldParent down bare
  obtain ⟨onlyKid, noKid⟩ := fillKid0_setKid_none parentNode leg
  have heldAfter : (part.free address).cell parent = some (Trie.fillKid0 (parentNode.setKid leg none)) := by
    rw [freed, withoutLeaf_cell, if_neg apart, if_pos rfl]
  have readParent : part.read parent = .ok (Trie.fillKid0 (parentNode.setKid leg none)) :=
    read_of_free (read_of_cell heldAfter)
  have sameValue : (Trie.fillKid0 (parentNode.setKid leg none)).value = parentNode.value := by
    rw [fillKid0_value, setKid_value]
  generalize Trie.fillKid0 (parentNode.setKid leg none) = parentAfter at *
  rw [freed] at heldAfter
  unfold Trie.removeIn
  rw [read_of_cell held, ok_bind, only, up, if_neg (by simp)]
  dsimp only
  rw [ran, ok_bind, readParent, ok_bind]
  by_cases stays : Useful parent parentAfter
  · rw [(keeps_useful unlinked.linked heldAfter).mpr stays, if_neg Bool.false_ne_true]
    refine ⟨_, rfl, ?_, ?_⟩
    · rw [freed]
      refine ⟨unlinked.linked, fun other object found => ?_⟩
      by_cases same : other = parent
      · subst same
        rw [heldAfter, Option.some.injEq] at found
        exact found ▸ stays
      · exact unlinked.useful other object found same
    · rw [freed]
      exact unlinked.entries
  · -- the parent has no value and one kid left, which takes its place
    have test : (parentAfter.kid1.isNone && parentAfter.value.isNone && parentAfter.parent.isSome) = true := by
      rw [← Bool.not_eq_false, keeps_useful unlinked.linked heldAfter]
      exact stays
    have lowerParent : parent ≠ Trie.head := fun top => stays fun lower => absurd top lower
    have bareParent : parentAfter.value = none := by
      by_contra stored
      exact stays fun _ none_ => absurd none_ stored
    have parting := valid.useful parent parentNode heldParent lowerParent (sameValue.symm.trans bareParent)
    obtain ⟨kid, left⟩ : ∃ kid, parentNode.kid (!leg) = some kid := by
      refine ne_none_iff_exists'.mp fun missing => ?_
      cases leg with
      | false => exact absurd parting (by rw [show parentNode.kid1 = none from missing]; exact nofun)
      | true =>
        have filled := (linked.nodes parent parentNode heldParent).filled missing
        exact absurd parting (by rw [filled]; exact nofun)
    rw [← freed] at unlinked heldAfter
    obtain ⟨after, _, _, up', unlinked', readUpper, stops, result⟩ :=
      bypass_ok unlinked.linked unlinked.useful heldAfter lowerParent noKid (onlyKid.trans left)
    -- the leaf is still in memory when its parent goes
    obtain ⟨_, ran', rfl⟩ := unlink_of_free unlinked'
    rw [test, if_pos rfl, removeIn_stop readParent noKid up' ran' (read_of_free readUpper) stops turns, ok_bind]
    rw [free_free] at result
    refine ⟨_, rfl, result.valid, fun other => ?_⟩
    rw [result.entries, unlinked.entries]
    by_cases here : other = parent
    · subst here
      rw [if_pos rfl, if_neg apart, entryAt, heldParent, bind_some, nodeEntry, ← sameValue, bareParent]
      rfl
    · rw [if_neg here]

theorem remove_ok (valid : Valid trie) (live : entryAt trie handle = some entry) :
    ∃ after, trie.remove handle = .ok (after, some entry.value) ∧ Removed trie after handle := by
  obtain ⟨node, value, held, stored, rfl⟩ := entryAt_some.mp live
  have linked := valid.linked
  have lower : handle ≠ Trie.head := by
    rintro rfl
    obtain ⟨_, heldHead, _, bare, _⟩ := linked.head
    rw [held, Option.some.injEq] at heldHead
    subst heldHead
    rw [bare] at stored
    cases stored
  -- a node other than the head is at least one bit down, so there is room for two turns
  obtain ⟨turns, room⟩ : ∃ turns, w + 1 = turns + 2 := by
    obtain ⟨_, _, _, _, heldParent, down⟩ := (linked.nodes handle node held).parent lower
    obtain ⟨_, found, _, extension⟩ := linked.kid_held heldParent down
    rw [held, Option.some.injEq] at found
    subst found
    have longer := extension.longer
    have short := (linked.nodes handle node held).shape.short
    exact ⟨w - 1, by omega⟩
  rw [Trie.remove, room, ← stored]
  cases parting : node.kid1 with
  | some =>
    refine ⟨_, ?_, clearValue_removed valid held (by rw [parting]; rfl)⟩
    unfold Trie.removeIn
    rw [read_of_cell held, ok_bind, if_pos (by rw [parting]; rfl), stored, modify_of_cell held]
    rfl
  | none =>
    cases points : node.kid0 with
    | none => exact remove_leaf valid held lower points
    | some =>
      obtain ⟨after, parent, _, up, unlinked, readParent, stops, removed⟩ :=
        bypass_ok linked (fun other object found _ => valid.useful other object found) held lower parting points
      exact ⟨_, removeIn_stop (read_of_cell held) parting up unlinked readParent stops _, removed⟩

/-- What the users of a trie have stored in it, told from what its calls returned. -/
def contents : List (TrieLabel w V) → (Nat → Option (Entry w V)) → Nat → Option (Entry w V)
  | [], stored => stored
  | .inserted handle key n val :: labels, stored =>
    contents labels (update stored handle (some ⟨key &&& widthMask w n, n, val⟩))
  | .removed handle _ :: labels, stored => contents labels (update stored handle none)
  | .found _ _ :: labels, stored => contents labels stored

theorem contents_append (early late : List (TrieLabel w V)) (stored : Nat → Option (Entry w V)) :
    contents (early ++ late) stored = contents late (contents early stored) := by
  induction early generalizing stored with
  | nil => rfl
  | cons label _ ih => cases label <;> exact ih _

variable {stored : Nat → Option (Entry w V)}

theorem Shortest.unique {first second : Option Nat}
    (one : Shortest stored key first) (two : Shortest stored key second) : first = second := by
  cases one with
  | missing none_ =>
    cases two with
    | missing => rfl
    | found held matching => exact absurd matching (none_ _ _ held)
  | found held matching least =>
    cases two with
    | missing none_ => exact absurd matching (none_ _ _ held)
    | found held' matching' least' =>
      by_contra different
      have apart : ∀ {a b : Nat}, some a ≠ some b → a ≠ b := fun unequal same => unequal (congrArg some same)
      have one := least _ _ held' matching' (apart (Ne.symm different))
      have two := least' _ _ held matching (apart different)
      omega

theorem Shortest.drop {rest : Nat → Option (Entry w V)} {key : BitVec w} {found : Option Nat} {handle : Nat}
    (search : Shortest stored key found) (entries : ∀ other, rest other = if other = handle then none else stored other)
    (unselected : found ≠ some handle) : Shortest rest key found := by
  have kept : ∀ other entry, rest other = some entry → stored other = some entry := by
    intro other entry held
    rw [entries] at held
    split at held
    · cases held
    · exact held
  cases search with
  | found held matching least =>
    refine .found ?_ matching fun other entry' held' => least other entry' (kept other entry' held')
    rw [entries, if_neg fun same => unselected (congrArg some same)]
    exact held
  | missing none_ => exact .missing fun other entry held => none_ other entry (kept other entry held)

theorem lookup_ok (linked : Linked trie) (key : BitVec w) {found : Option Nat}
    (search : Shortest (entryAt trie) key found) : trie.lookupHandle key = .ok found ∧
      trie.lookup key = .ok ((found.bind (entryAt trie)).map (·.value)) := by
  obtain ⟨_, looked, search'⟩ := lookupHandle_ok linked key
  rw [search.unique search'] at *
  refine ⟨looked, ?_⟩
  unfold Trie.lookup
  rw [looked, ok_bind]
  cases search with
  | missing => rfl
  | found held =>
    obtain ⟨_, value, heldNode, stored, rfl⟩ := entryAt_some.mp held
    dsimp only
    rw [read_of_cell heldNode, ok_bind, bind_some, held, stored]
    rfl

theorem absent_of_stores (linked : Linked trie) (short : n ≤ w)
    (free : ∀ handle < trie.next, trie.stores key n handle = false) : Absent (entryAt trie) key n := by
  intro handle entry held whole matching
  obtain ⟨node, _, heldNode, stored, rfl⟩ := entryAt_some.mp held
  have shape := (linked.nodes handle node heldNode).shape
  have unstored := free handle (linked.bounded _ _ heldNode)
  unfold Trie.stores at unstored
  have whole : width node = n := whole
  have mask : node.mask = widthMask w n := by rw [widthMask_eq short, shape.mask, whole]
  rw [heldNode] at unstored
  simp only [stored, mask, (matchesKey_iff shape).mpr matching, isSome_some, beq_self_eq_true, Bool.and_self] at unstored
  cases unstored

theorem entryAt_of_live (live : trie.live handle = true) : ∃ entry, entryAt trie handle = some entry := by
  unfold Trie.live at live
  cases held : trie.cell handle with
  | none =>
    rw [held] at live
    cases live
  | some node =>
    rw [held] at live
    obtain ⟨value, stored⟩ := isSome_iff_exists.mp live
    exact ⟨_, entryAt_some.mpr ⟨node, value, held, stored, rfl⟩⟩

theorem entryAt_empty (handle : Nat) : entryAt (Trie.empty : Trie w V) handle = none := by
  simp only [entryAt, Trie.empty, update_apply]
  split <;> rfl

theorem empty_valid : Valid (Trie.empty : Trie w V) := by
  have only : ∀ address node, (Trie.empty : Trie w V).cell address = some node →
      address = Trie.head ∧ node = TrieNode.new 0 0 none := by
    intro address node held
    simp only [Trie.empty, update_apply] at held
    split at held
    · cases held
      exact ⟨‹_›, rfl⟩
    · cases held
  have zero : (0 : BitVec w) = prefixMask w 0 := by
    rw [prefixMask, Nat.sub_zero, BitVec.shiftLeft_eq_zero (Nat.le_refl w)]
    rfl
  have top : width (TrieNode.new 0 0 none : TrieNode w V) = 0 := by
    rw [width, TrieNode.new]
    rw [zero, maskWidth_prefixMask (Nat.zero_le w)]
  refine ⟨⟨?_, ⟨TrieNode.new 0 0 none, by simp [Trie.empty], rfl, rfl, top⟩, ?_⟩, ?_⟩
  · intro address node held
    rw [(only address node held).1]
    exact Nat.zero_lt_one
  · intro address node held
    obtain ⟨rfl, rfl⟩ := only address node held
    refine ⟨⟨by rw [top]; exact Nat.zero_le w, by rw [top]; exact zero, ?_⟩, ?_, fun _ => rfl, by simp [TrieNode.new], fun lower => absurd rfl lower⟩
    · simp [TrieNode.new]
    · intro leg kid points
      cases leg <;> cases points
  · intro address node held lower
    exact absurd (only address node held).1 lower

theorem step_ok (valid : Valid trie) (same : entryAt trie = stored) {op : TrieOp w V} (allowed : Trie.Allowed trie op) :
    ∃ after labels, Trie.step trie op = .ok (after, labels) ∧ Valid after ∧ entryAt after = contents labels stored := by
  subst same
  cases op with
  | insert key n val =>
    obtain ⟨positive, short, free⟩ := allowed
    obtain ⟨after, handle, inserted, added⟩ := insert_ok valid key positive short val (absent_of_stores valid.linked short free)
    refine ⟨after, [.inserted handle key n val], by simp [Trie.step, inserted, pure, Except.pure], added.valid, ?_⟩
    funext other
    rw [added.entries, contents, contents, update_apply, widthMask_eq short]
  | remove handle =>
    obtain ⟨entry, live⟩ := entryAt_of_live allowed
    obtain ⟨after, removed, rest⟩ := remove_ok valid live
    refine ⟨after, [.removed handle (some entry.value)], by simp [Trie.step, removed, pure, Except.pure], rest.valid, ?_⟩
    funext other
    rw [rest.entries, contents, contents, update_apply]
  | lookup key =>
    obtain ⟨_, _, search⟩ := lookupHandle_ok valid.linked key
    obtain ⟨_, looked⟩ := lookup_ok valid.linked key search
    exact ⟨trie, _, by simp only [Trie.step, looked, ok_bind]; rfl, valid, rfl⟩

/-- The trie answers as a shortest-prefix map with these entries would. -/
structure Answers (trie : Trie w V) (stored : Nat → Option (Entry w V)) : Prop where
  handles : ∀ handle entry, stored handle = some entry →
    ∃ node, trie.cell handle = some node ∧ node.value = some entry.value
  lookup : ∀ key, ∃ found, Shortest stored key found ∧ trie.lookup key = .ok ((found.bind stored).map (·.value))
  remove : ∀ handle entry, stored handle = some entry → ∃ after, trie.remove handle = .ok (after, some entry.value) ∧
    ∀ key, ¬Shortest stored key (some handle) → after.lookup key = trie.lookup key
  insert : ∀ key width val, 1 ≤ width → width ≤ w → Absent stored key width →
    ∃ after handle, trie.insert key width val = .ok (after, handle) ∧ stored handle = none

theorem Valid.answers (valid : Valid trie) : Answers trie (entryAt trie) := by
  constructor
  · intro handle entry held
    obtain ⟨node, _, heldNode, stored, rfl⟩ := entryAt_some.mp held
    exact ⟨node, heldNode, stored⟩
  · intro key
    obtain ⟨found, _, search⟩ := lookupHandle_ok valid.linked key
    exact ⟨found, search, (lookup_ok valid.linked key search).2⟩
  · intro handle entry held
    obtain ⟨after, removed, rest⟩ := remove_ok valid held
    refine ⟨after, removed, fun key unselected => ?_⟩
    obtain ⟨found, _, search⟩ := lookupHandle_ok valid.linked key
    have missed : found ≠ some handle := fun same => unselected (same ▸ search)
    rw [(lookup_ok valid.linked key search).2, (lookup_ok rest.valid.linked key (search.drop rest.entries missed)).2]
    cases found with
    | none => rfl
    | some =>
      rw [bind_some, bind_some, rest.entries, if_neg fun same => missed (congrArg some same)]
  · intro key n val positive short absent
    obtain ⟨after, handle, inserted, added⟩ := insert_ok valid key positive short val absent
    exact ⟨after, handle, inserted, added.free⟩

/-- Whatever was inserted and removed, the trie answers as the map of what is still
stored. -/
theorem shortest_prefix_map (ops : List (TrieOp w V)) (each : Each Trie.step Trie.Allowed Trie.empty ops) :
    ∃ trie labels, run Trie.step Trie.empty ops = .ok (trie, labels) ∧ Answers trie (contents labels fun _ => none) := by
  have start : entryAt (Trie.empty : Trie w V) = fun _ => none := funext entryAt_empty
  obtain ⟨trie, labels, ran, valid, same⟩ := run_advances Trie.Allowed
    (fun trie labels => Valid trie ∧ entryAt trie = contents labels fun _ => none)
    (by
      intro trie past op ⟨valid, same⟩ allowed
      obtain ⟨after, labels, taken, kept, entries⟩ := step_ok valid same allowed
      exact ⟨after, labels, taken, kept, by rw [entries, contents_append]⟩)
    ⟨empty_valid, start⟩ each
  refine ⟨trie, labels, ran, ?_⟩
  rw [← same]
  exact valid.answers

def trieHistory : List (TrieOp 8 Nat) :=
  [.insert 0xF0 4 1, .insert 0xFF 8 2, .insert 0xF8 5 3, .insert 0x0F 8 4, .lookup 0xFF, .insert 0x00 8 5, .remove 3,
    .remove 6, .insert 0x0F 7 6]

theorem shortest_prefix_map_history :
    ∃ trie labels, run Trie.step Trie.empty trieHistory = .ok (trie, labels) ∧ Answers trie (contents labels fun _ => none) :=
  shortest_prefix_map trieHistory (by decide)

end ImcGem5.Base.Proofs.Trie
