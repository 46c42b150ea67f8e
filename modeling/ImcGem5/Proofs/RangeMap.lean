import ImcGem5.Base.AddrRangeMap
import Mathlib.Data.List.TakeWhile
import Mathlib.Data.List.Pairwise

/-! Address decoding is exact. The ranges of a map lie apart in the order of the map,
so of the entries that begin at or before a range only the last can reach into it,
and of those that begin after it the first reaches into it if any does. -/

namespace ImcGem5.Base.Proofs.RangeMap
open Lib Mem List Option AddrRangeMap
open BitVec hiding not_and not_not not_or

variable {V : Type} {r range : AddrRange} {entry : RangeNode V} {map : AddrRangeMap V} {it : Nat} {cond : AddrRange → Bool}

def Within (address : Addr) (range : AddrRange) : Prop := range.start ≤ address ∧ address < range.stop

theorem isSubset_iff_bounds : r.isSubset range = true ↔ range.start ≤ r.start ∧ r.stop ≤ range.stop := by
  simp only [AddrRange.isSubset, Bool.and_eq_true, ule_iff_le]

theorem intersects_iff_bounds : r.intersects range = true ↔ r.start < range.stop ∧ range.start < r.stop := by
  rw [AddrRange.intersects, Bool.not_eq_true', ← Bool.not_eq_true, Bool.or_eq_true, not_or, ule_iff_le,
    ule_iff_le, BitVec.not_le, BitVec.not_le]

theorem isSubset_iff (nonempty : r.Nonempty) : r.isSubset range = true ↔ ∀ address, Within address r → Within address range := by
  rw [isSubset_iff_bounds]
  simp only [Within, AddrRange.Nonempty, lt_def, le_def] at *
  constructor
  · intro ⟨low, high⟩ address ⟨above, below⟩
    omega
  · intro covered
    -- the last address of the range is one below its end
    have first := covered r.start (by omega)
    have last := covered (r.stop - 1) (by bv_omega)
    bv_omega

theorem intersects_iff (nonempty : r.Nonempty) (other : range.Nonempty) :
    r.intersects range = true ↔ ∃ address, Within address r ∧ Within address range := by
  rw [intersects_iff_bounds]
  simp only [Within, AddrRange.Nonempty, lt_def, le_def] at *
  constructor
  · intro ⟨low, high⟩
    rcases Nat.le_total r.start.toNat range.start.toNat with first | first
    · exact ⟨range.start, by omega, by omega⟩
    · exact ⟨r.start, by omega, by omega⟩
  · intro ⟨address, inside, inside'⟩
    omega

theorem intersects_of_isSubset (nonempty : r.Nonempty) (inside : r.isSubset range = true) : r.intersects range = true := by
  rw [intersects_iff_bounds]
  rw [isSubset_iff_bounds] at inside
  simp only [AddrRange.Nonempty, lt_def, le_def] at *
  omega

theorem notAfter_iff : notAfter r entry = true ↔ entry.first.start ≤ r.start := by
  simp [notAfter, AddrRange.precedes, BitVec.ult, le_def]

def Live (tree : List (RangeNode V)) (it : Nat) : Prop := ∃ entry ∈ tree, entry.node = it

/-- What a map keeps: its ranges are not empty and lie apart in its order, its nodes
are told apart by their addresses, and the cache holds iterators that are still valid. -/
structure Valid (map : AddrRangeMap V) : Prop where
  nonempty : ∀ entry ∈ map.tree, entry.first.Nonempty
  apart : map.tree.Pairwise fun before after => before.first.stop ≤ after.first.start
  distinct : map.tree.Pairwise fun before after => before.node ≠ after.node
  allocated : ∀ entry ∈ map.tree, entry.node < map.nodes
  live : ∀ it ∈ map.cache, Live map.tree it

theorem Valid.empty : Valid ({} : AddrRangeMap V) :=
  ⟨nofun, .nil, .nil, nofun, nofun⟩

theorem Valid.overlap_eq (valid : Valid map) {other : RangeNode V} (member : entry ∈ map.tree) (member' : other ∈ map.tree)
    (low : entry.first.start < other.first.stop) (high : other.first.start < entry.first.stop) : entry = other := by
  by_contra different
  let Separate (before after : RangeNode V) : Prop :=
    before.first.stop ≤ after.first.start ∨ after.first.stop ≤ before.first.start
  have : Std.Symm Separate := ⟨fun _ _ separate => separate.symm⟩
  have pairwise : map.tree.Pairwise Separate := valid.apart.imp fun ordered => .inl ordered
  have separate := pairwise.forall member member' different
  simp only [Separate, le_def, lt_def] at separate low high
  omega

theorem Valid.superset_unique (valid : Valid map) (nonempty : r.Nonempty)
    {other : RangeNode V} (member : entry ∈ map.tree) (member' : other ∈ map.tree)
    (covers : r.isSubset entry.first = true) (covers' : r.isSubset other.first = true) : entry = other := by
  rw [isSubset_iff_bounds] at covers covers'
  simp only [AddrRange.Nonempty, le_def, lt_def] at nonempty covers covers'
  refine valid.overlap_eq member member' ?_ ?_
  · rw [lt_def]; omega
  · rw [lt_def]; omega

theorem deref_ok (live : Live map.tree it) : ∃ entry, map.deref it = .ok entry ∧ entry ∈ map.tree ∧ entry.node = it := by
  obtain ⟨witness, member, same⟩ := live
  unfold AddrRangeMap.deref
  cases found : map.tree.find? (·.node == it) with
  | none =>
    have absent := find?_eq_none.mp found witness member
    simp [same] at absent
  | some entry =>
    exact ⟨entry, rfl, mem_of_find?_eq_some found, by simpa using find?_some found⟩

theorem searchCache_ok (cond : AddrRange → Bool) {c : List Nat} (live : ∀ it ∈ c, Live map.tree it) :
    ∃ found, map.searchCache cond c = .ok found ∧
      ∀ it, found = some it → it ∈ c ∧ ∃ entry ∈ map.tree, entry.node = it ∧ cond entry.first = true := by
  induction c with
  | nil => exact ⟨none, rfl, nofun⟩
  | cons it _ ih =>
    obtain ⟨entry, found, member, same⟩ := deref_ok (live it mem_cons_self)
    simp only [searchCache, found, ok_bind]
    by_cases matching : cond entry.first = true
    · rw [if_pos matching]
      refine ⟨some it, rfl, ?_⟩
      intro other answered
      cases answered
      exact ⟨mem_cons_self, entry, member, same, matching⟩
    · rw [if_neg matching]
      obtain ⟨answer, searched, sound⟩ := ih fun other later => live other (mem_cons_of_mem _ later)
      refine ⟨answer, searched, fun it answered => ?_⟩
      obtain ⟨cached, hit⟩ := sound it answered
      exact ⟨mem_cons_of_mem _ cached, hit⟩

theorem walkBack_sound {earlier : List (RangeNode V)} {i : RangeNode V} (found : walkBack cond i earlier = some it) :
    ∃ entry ∈ i :: earlier, entry.node = it ∧ cond entry.first = true := by
  induction earlier generalizing i with
  | nil =>
    unfold walkBack at found
    split at found
    · cases found
      exact ⟨i, mem_cons_self, rfl, ‹_›⟩
    · cases found
  | cons _ _ ih =>
    unfold walkBack at found
    split at found
    · cases found
      exact ⟨i, mem_cons_self, rfl, ‹_›⟩
    · split at found
      · obtain ⟨entry, member, hit⟩ := ih found
        exact ⟨entry, mem_cons_of_mem _ member, hit⟩
      · cases found

theorem walkBack_first {earlier : List (RangeNode V)} {i : RangeNode V}
    (missed : walkBack cond i earlier = none) : cond i.first = false := by
  by_contra hit
  rw [Bool.not_eq_false] at hit
  cases earlier <;> simp [walkBack, hit] at missed

theorem searchTree_sound {tree : List (RangeNode V)}
    (found : searchTree tree r cond = some it) : ∃ entry ∈ tree, entry.node = it ∧ cond entry.first = true := by
  unfold searchTree at found
  split at found
  case h_1 next selected =>
    cases found
    obtain ⟨first, hit⟩ := Option.filter_eq_some_iff.mp selected
    exact ⟨next, (dropWhile_sublist _).subset (mem_of_head? first), rfl, hit⟩
  case h_2 =>
    split at found
    · cases found
    · next last earlier turned =>
      obtain ⟨entry, member, hit⟩ := walkBack_sound found
      rw [← turned, mem_reverse] at member
      exact ⟨entry, (takeWhile_sublist _).subset member, hit⟩

theorem begins_after {tree : List (RangeNode V)} (nonempty : ∀ entry ∈ tree, entry.first.Nonempty)
    (apart : tree.Pairwise fun before after => before.first.stop ≤ after.first.start) :
    ∀ entry ∈ tree.dropWhile (notAfter r), r.start < entry.first.start := by
  induction tree with
  | nil => nofun
  | cons first _ ih =>
    obtain ⟨lead, rest_apart⟩ := pairwise_cons.mp apart
    intro entry member
    rw [dropWhile_cons] at member
    split at member
    · exact ih (fun other later => nonempty other (mem_cons_of_mem _ later)) rest_apart entry member
    · next later =>
      rw [notAfter_iff, BitVec.not_le] at later
      obtain rfl | member := mem_cons.mp member
      · exact later
      · have follows := lead entry member
        have first_nonempty := nonempty first mem_cons_self
        simp only [AddrRange.Nonempty, le_def, lt_def] at *
        omega

theorem searchTree_complete (valid : Valid map) (meets : ∀ range, cond range = true → r.intersects range = true)
    (leads : ∀ next later, r.start < next.start → next.stop ≤ later.start → next.Nonempty → cond later = true → cond next = true)
    (missed : searchTree map.tree r cond = none) : ∀ entry ∈ map.tree, cond entry.first = false := by
  intro entry member
  by_contra hit
  rw [Bool.not_eq_false] at hit
  unfold searchTree at missed
  split at missed
  · cases missed
  next unselected =>
  have split := takeWhile_append_dropWhile (p := notAfter r) (l := map.tree)
  have after := begins_after (r := r) valid.nonempty valid.apart
  have apart := valid.apart
  have nonempty := valid.nonempty
  rw [← split] at member apart nonempty
  obtain before | later := mem_append.mp member
  · -- the entry begins at or before r, and it is the last that does
    split at missed
    · next none_before => simp [reverse_eq_nil_iff.mp none_before] at before
    · next last earlier turned =>
      have first := walkBack_first missed
      have order : (map.tree.takeWhile (notAfter r)) = earlier.reverse ++ [last] := by
        rw [← reverse_reverse (map.tree.takeWhile _), turned, reverse_cons]
      rw [order] at before apart
      obtain older | newest := mem_concat.mp before
      · have ordered := (pairwise_append.mp (pairwise_append.mp apart).1).2.2 entry older last
          mem_cons_self
        have begun : last.first.start ≤ r.start := by
          have kept : last ∈ map.tree.takeWhile (notAfter r) := by rw [order]; simp
          exact notAfter_iff.mp (mem_takeWhile_imp kept)
        have met := intersects_iff_bounds.mp (meets _ hit)
        simp only [le_def, lt_def] at *
        omega
      · rw [newest, first] at hit
        cases hit
  · cases upper : map.tree.dropWhile (notAfter r) with
    | nil => simp [upper] at later
    | cons next =>
      rw [upper] at later apart nonempty after unselected
      have first : cond next.first = true := by
        obtain rfl | later := mem_cons.mp later
        · exact hit
        · have ordered := (pairwise_cons.mp (pairwise_append.mp apart).2.1).1 entry later
          exact leads _ _ (after next mem_cons_self) ordered (nonempty next (by simp)) hit
      simp [first] at unselected

theorem addNewEntryToCache_subset {maxCacheSize : BitVec 32} {cache : List Nat} {other : Nat}
    (member : other ∈ addNewEntryToCache maxCacheSize cache it) : other = it ∨ other ∈ cache := by
  unfold addNewEntryToCache at member
  split at member
  · split at member
    · split at member
      · exact (mem_cons.mp member).imp_right fun kept => (dropLast_sublist _).subset kept
      · obtain kept | last := mem_concat.mp member
        · exact .inr ((dropLast_sublist _).subset kept)
        · exact .inl last
    · exact mem_cons.mp member
  · exact .inr member

structure SameTree (map next : AddrRangeMap V) : Prop where
  tree : next.tree = map.tree
  nodes : next.nodes = map.nodes

theorem Valid.recache (valid : Valid map) {cache : List Nat} (live : ∀ it ∈ cache, Live map.tree it) : Valid { map with cache } :=
  ⟨valid.nonempty, valid.apart, valid.distinct, valid.allocated, live⟩

theorem find_ok (maxCacheSize : BitVec 32) (valid : Valid map) (meets : ∀ range, cond range = true → r.intersects range = true)
    (leads : ∀ next later, r.start < next.start → next.stop ≤ later.start → next.Nonempty → cond later = true → cond next = true) :
    ∃ next answer, map.find maxCacheSize r cond = .ok (next, answer) ∧ Valid next ∧ SameTree map next ∧
      (∀ it, answer = some it → ∃ entry ∈ map.tree, entry.node = it ∧ cond entry.first = true) ∧
      (answer = none → ∀ entry ∈ map.tree, cond entry.first = false) := by
  obtain ⟨cached, searched, sound⟩ := searchCache_ok cond valid.live
  unfold find
  rw [searched, ok_bind]
  cases cached with
  | some it =>
    obtain ⟨_, entry, stored, same, hit⟩ := sound it rfl
    refine ⟨_, some it, rfl, valid.recache ?_, ⟨rfl, rfl⟩, ?_, nofun⟩
    · intro other kept
      obtain rfl | kept := mem_cons.mp kept
      · exact ⟨entry, stored, same⟩
      · exact valid.live other (mem_of_mem_erase kept)
    · intro other answered
      cases answered
      exact ⟨entry, stored, same, hit⟩
  | none =>
    cases search : searchTree map.tree r cond with
    | some it =>
      obtain ⟨entry, stored, same, hit⟩ := searchTree_sound search
      refine ⟨_, some it, rfl, valid.recache ?_, ⟨rfl, rfl⟩, ?_, nofun⟩
      · intro other kept
        obtain rfl | kept := addNewEntryToCache_subset kept
        · exact ⟨entry, stored, same⟩
        · exact valid.live other kept
      · intro other answered
        cases answered
        exact ⟨entry, stored, same, hit⟩
    | none => exact ⟨map, none, rfl, valid, ⟨rfl, rfl⟩, nofun, fun _ => searchTree_complete valid meets leads search⟩

theorem intersects_leads (next later : AddrRange) (after : r.start < next.start)
    (ordered : next.stop ≤ later.start) (nonempty : next.Nonempty) (met : r.intersects later = true) :
    r.intersects next = true := by
  rw [intersects_iff_bounds] at met ⊢
  simp only [AddrRange.Nonempty, le_def, lt_def] at *
  omega

theorem isSubset_leads (next later : AddrRange) (after : r.start < next.start)
    (ordered : next.stop ≤ later.start) (nonempty : next.Nonempty) (inside : r.isSubset later = true) :
    r.isSubset next = true := by
  rw [isSubset_iff_bounds] at inside
  simp only [AddrRange.Nonempty, le_def, lt_def] at *
  omega

theorem contains_ok (maxCacheSize : BitVec 32) (valid : Valid map) (nonempty : r.Nonempty) :
    ∃ next answer, map.contains maxCacheSize r = .ok (next, answer) ∧ Valid next ∧ SameTree map next ∧
      ∀ it, answer = some it ↔ ∃ entry ∈ map.tree, entry.node = it ∧ r.isSubset entry.first = true := by
  obtain ⟨next, answer, found, kept, same, sound, complete⟩ :=
    find_ok maxCacheSize valid (fun _ => intersects_of_isSubset nonempty) isSubset_leads
  refine ⟨next, answer, found, kept, same, fun it => ⟨sound it, ?_⟩⟩
  intro ⟨entry, member, node, covers⟩
  cases answer with
  | none =>
    have missed := complete rfl entry member
    rw [covers] at missed
    cases missed
  | some other =>
    obtain ⟨_, member', node', covers'⟩ := sound other rfl
    rw [← node, ← node', valid.superset_unique nonempty member member' covers covers']

theorem intersects_ok (maxCacheSize : BitVec 32) (valid : Valid map) (r : AddrRange) :
    ∃ next answer, map.intersects maxCacheSize r = .ok (next, answer) ∧ Valid next ∧ SameTree map next ∧
      (∀ it, answer = some it → ∃ entry ∈ map.tree, entry.node = it ∧ r.intersects entry.first = true) ∧
      (answer = none ↔ ∀ entry ∈ map.tree, r.intersects entry.first = false) := by
  obtain ⟨next, answer, found, kept, same, sound, complete⟩ :=
    find_ok maxCacheSize valid (fun _ met => met) (intersects_leads (r := r))
  refine ⟨next, answer, found, kept, same, sound, complete, ?_⟩
  intro missed
  cases answer with
  | none => rfl
  | some it =>
    obtain ⟨entry, member, _, met⟩ := sound it rfl
    rw [missed entry member] at met
    cases met

theorem insertNode_new (valid : Valid map) (nonempty : r.Nonempty) (clear : ∀ entry ∈ map.tree, r.intersects entry.first = false) (d : V) :
    map.insertNode r d = ({ map with
      tree := map.tree.takeWhile (notAfter r) ++ ⟨map.nodes, r, d⟩ :: map.tree.dropWhile (notAfter r)
      nodes := map.nodes + 1 }, map.nodes) := by
  unfold insertNode
  cases found : map.tree.find? (fun entry => !r.precedes entry.first && !entry.first.precedes r) with
  | none => rfl
  | some entry =>
    -- an entry with an equivalent key begins where r begins, so it meets r
    have member := mem_of_find?_eq_some found
    have same := find?_some found
    have stored := valid.nonempty entry member
    have met : r.intersects entry.first = true := by
      rw [intersects_iff_bounds]
      simp only [AddrRange.precedes, BitVec.ult, Bool.and_eq_true, Bool.not_eq_true', decide_eq_false_iff_not] at same
      simp only [AddrRange.Nonempty, lt_def] at *
      omega
    rw [clear entry member] at met
    cases met

theorem mem_insertNode {new : RangeNode V} :
    entry ∈ map.tree.takeWhile (notAfter r) ++ new :: map.tree.dropWhile (notAfter r) ↔ entry = new ∨ entry ∈ map.tree := by
  have split := takeWhile_append_dropWhile (p := notAfter r) (l := map.tree)
  have parts : entry ∈ map.tree ↔ entry ∈ map.tree.takeWhile (notAfter r) ∨ entry ∈ map.tree.dropWhile (notAfter r) := by
    rw [← mem_append, split]
  rw [mem_append, mem_cons, parts]
  exact or_left_comm

theorem pairwise_insertNode {new : RangeNode V} {related : RangeNode V → RangeNode V → Prop} (pairwise : map.tree.Pairwise related)
    (before : ∀ entry ∈ map.tree.takeWhile (notAfter r), related entry new)
    (after : ∀ entry ∈ map.tree.dropWhile (notAfter r), related new entry) :
    (map.tree.takeWhile (notAfter r) ++ new :: map.tree.dropWhile (notAfter r)).Pairwise related := by
  have split := takeWhile_append_dropWhile (p := notAfter r) (l := map.tree)
  rw [← split] at pairwise
  obtain ⟨early, late, across⟩ := pairwise_append.mp pairwise
  refine pairwise_append.mpr ⟨early, pairwise_cons.mpr ⟨after, late⟩, ?_⟩
  intro entry member other later
  obtain rfl | later := mem_cons.mp later
  · exact before entry member
  · exact across entry member other later

theorem Valid.insertNode (valid : Valid map) (nonempty : r.Nonempty)
    (clear : ∀ entry ∈ map.tree, r.intersects entry.first = false) (d : V) : Valid (map.insertNode r d).1 := by
  rw [insertNode_new valid nonempty clear]
  have older : ∀ entry ∈ map.tree, entry.node ≠ map.nodes := fun entry member => Nat.ne_of_lt (valid.allocated entry member)
  have early : ∀ entry ∈ map.tree.takeWhile (notAfter r), entry ∈ map.tree := fun _ kept => (takeWhile_sublist _).subset kept
  have late : ∀ entry ∈ map.tree.dropWhile (notAfter r), entry ∈ map.tree := fun _ kept => (dropWhile_sublist _).subset kept
  have separate : ∀ entry ∈ map.tree, entry.first.stop ≤ r.start ∨ r.stop ≤ entry.first.start := by
    intro entry member
    have unmet := clear entry member
    rw [← Bool.not_eq_true, intersects_iff_bounds] at unmet
    simp only [le_def, lt_def] at *
    omega
  constructor
  · intro entry member
    obtain rfl | member := mem_insertNode.mp member
    · exact nonempty
    · exact valid.nonempty entry member
  · refine pairwise_insertNode valid.apart ?_ ?_
    · intro entry member
      have begun := notAfter_iff.mp (mem_takeWhile_imp member)
      have sides := separate entry (early entry member)
      simp only [AddrRange.Nonempty, le_def, lt_def] at *
      omega
    · intro entry member
      have begins := begins_after valid.nonempty valid.apart entry member
      have stored := valid.nonempty entry (late entry member)
      have sides := separate entry (late entry member)
      simp only [AddrRange.Nonempty, le_def, lt_def] at *
      omega
  · exact pairwise_insertNode valid.distinct (fun entry member => older entry (early entry member))
      (fun entry member => (older entry (late entry member)).symm)
  · intro entry member
    obtain rfl | member := mem_insertNode.mp member
    · exact Nat.lt_succ_self _
    · exact Nat.lt_succ_of_lt (valid.allocated entry member)
  · intro it cached
    obtain ⟨entry, member, same⟩ := valid.live it cached
    exact ⟨entry, mem_insertNode.mpr (.inr member), same⟩

/-- What insert may do: a range that meets no stored one becomes an entry, any other
leaves the tree as it was. -/
inductive Inserted (r : AddrRange) (d : V) (map next : AddrRangeMap V) : Option Nat → Prop where
  | stored (it : Nat) (clear : ∀ entry ∈ map.tree, r.intersects entry.first = false)
      (fresh : ¬Live map.tree it) (tree : ∀ entry, entry ∈ next.tree ↔ entry = ⟨it, r, d⟩ ∨ entry ∈ map.tree) :
      Inserted r d map next (some it)
  | rejected (met : ∃ entry ∈ map.tree, r.intersects entry.first = true) (tree : next.tree = map.tree) :
      Inserted r d map next none

theorem insert_ok (maxCacheSize : BitVec 32) {map : AddrRangeMap V} (valid : Valid map) {r : AddrRange}
    (nonempty : r.Nonempty) (d : V) :
    ∃ next answer, map.insert maxCacheSize r d = .ok (next, answer) ∧ Valid next ∧ Inserted r d map next answer := by
  obtain ⟨looked, found, searched, kept, same, sound, complete⟩ := intersects_ok maxCacheSize valid r
  unfold AddrRangeMap.insert
  rw [searched, ok_bind]
  cases found with
  | some it =>
    obtain ⟨entry, member, _, met⟩ := sound it rfl
    exact ⟨looked, none, rfl, kept, .rejected ⟨entry, member, met⟩ same.tree⟩
  | none =>
    have clear : ∀ entry ∈ looked.tree, r.intersects entry.first = false := by
      rw [same.tree]
      exact complete.mp rfl
    refine ⟨(looked.insertNode r d).1, some looked.nodes, ?_, kept.insertNode nonempty clear d, ?_⟩
    · dsimp only
      rw [insertNode_new kept nonempty clear]
      rfl
    · refine .stored _ (complete.mp rfl) ?_ fun entry => ?_
      · intro ⟨entry, member, reused⟩
        rw [← same.tree] at member
        exact absurd (kept.allocated entry member) (by rw [reused]; exact Nat.lt_irrefl _)
      · rw [insertNode_new kept nonempty clear, ← same.tree]
        exact mem_insertNode

theorem erase_ok (valid : Valid map) {p : Nat} (live : Live map.tree p) :
    ∃ next, map.erase p = .ok next ∧ Valid next ∧ ∀ entry, entry ∈ next.tree ↔ entry ∈ map.tree ∧ entry.node ≠ p := by
  obtain ⟨entry, found, _⟩ := deref_ok live
  unfold erase
  rw [found, ok_bind]
  have part : ∀ entry, entry ∈ map.tree.filter (·.node != p) ↔ entry ∈ map.tree ∧ entry.node ≠ p := by simp
  refine ⟨_, rfl, ⟨?_, valid.apart.filter _, valid.distinct.filter _, ?_, ?_⟩, part⟩
  · exact fun entry member => valid.nonempty entry ((part entry).mp member).1
  · exact fun entry member => valid.allocated entry ((part entry).mp member).1
  · intro it cached
    obtain ⟨cached, other⟩ := mem_filter.mp cached
    obtain ⟨entry, member, same⟩ := valid.live it cached
    exact ⟨entry, (part entry).mpr ⟨member, by simpa [same] using other⟩, same⟩

theorem step_ok (maxCacheSize : BitVec 32) (valid : Valid map) {op : RangeOp V} (allowed : map.Allowed op) :
    ∃ next answers, step maxCacheSize map op = .ok (next, answers) ∧ Valid next := by
  cases op with
  | insert _ d =>
    obtain ⟨next, answer, inserted, kept, _⟩ := insert_ok maxCacheSize valid allowed d
    exact ⟨next, [answer], by simp [step, inserted, pure, Except.pure], kept⟩
  | erase =>
    obtain ⟨next, erased, kept, _⟩ := erase_ok valid allowed
    exact ⟨next, [], by simp [step, erased, pure, Except.pure], kept⟩
  | clear => exact ⟨map.clear, [], rfl, nofun, .nil, .nil, nofun, nofun⟩
  | contains =>
    obtain ⟨next, answer, found, kept, _⟩ := contains_ok maxCacheSize valid allowed
    exact ⟨next, [answer], by simp [step, found, pure, Except.pure], kept⟩
  | intersects r =>
    obtain ⟨next, answer, found, kept, _⟩ := intersects_ok maxCacheSize valid r
    exact ⟨next, [answer], by simp [step, found, pure, Except.pure], kept⟩

theorem run_ok (maxCacheSize : BitVec 32) {ops : List (RangeOp V)}
    (each : Each (step maxCacheSize) AddrRangeMap.Allowed {} ops) :
    ∃ map answers, run (step maxCacheSize) {} ops = .ok (map, answers) ∧ Valid map := by
  refine run_advances AddrRangeMap.Allowed (fun map _ => Valid map) ?_ Valid.empty each
  intro map past op valid allowed
  exact step_ok maxCacheSize valid allowed

def answer (result : Except Abort (AddrRangeMap V × Option Nat)) : Except Abort (Option Nat) := result.map Prod.snd

/-- The answers for a range, in terms of the addresses the stored ranges hold. The
last three fields compare them with those of another cache over the same tree. -/
structure Exact (maxCacheSize : BitVec 32) (map : AddrRangeMap V) (r : AddrRange) : Prop where
  inserts : ∀ d, ∃ next answer, map.insert maxCacheSize r d = .ok (next, answer) ∧
    (answer.isSome ↔ ¬∃ entry ∈ map.tree, ∃ address, Within address r ∧ Within address entry.first) ∧
    (∀ it, answer = some it → ∀ entry, entry ∈ next.tree ↔ entry = ⟨it, r, d⟩ ∨ entry ∈ map.tree) ∧
    (answer = none → next.tree = map.tree)
  contains : ∃ next answer, map.contains maxCacheSize r = .ok (next, answer) ∧ next.tree = map.tree ∧
    ∀ it, answer = some it ↔ ∃ entry ∈ map.tree, entry.node = it ∧ ∀ address, Within address r → Within address entry.first
  unique : ∀ entry ∈ map.tree, ∀ other ∈ map.tree, (∀ address, Within address r → Within address entry.first) →
    (∀ address, Within address r → Within address other.first) → entry = other
  intersects : ∃ next answer, map.intersects maxCacheSize r = .ok (next, answer) ∧ next.tree = map.tree ∧
    (∀ it, answer = some it → ∃ entry ∈ map.tree, entry.node = it ∧ ∃ address, Within address r ∧ Within address entry.first) ∧
    (answer.isSome ↔ ∃ entry ∈ map.tree, ∃ address, Within address r ∧ Within address entry.first)
  inserts_alike : ∀ d cache, (∀ it ∈ cache, Live map.tree it) →
    answer (AddrRangeMap.insert maxCacheSize { map with cache } r d) = answer (map.insert maxCacheSize r d)
  contains_alike : ∀ cache, (∀ it ∈ cache, Live map.tree it) →
    answer (AddrRangeMap.contains maxCacheSize { map with cache } r) = answer (map.contains maxCacheSize r)
  intersects_alike : ∀ cache, (∀ it ∈ cache, Live map.tree it) →
    (answer (AddrRangeMap.intersects maxCacheSize { map with cache } r)).map isSome =
      (answer (map.intersects maxCacheSize r)).map isSome

section

variable (maxCacheSize : BitVec 32)
include maxCacheSize

theorem insert_answer (valid : Valid map) (nonempty : r.Nonempty) (d : V) :
    answer (map.insert maxCacheSize r d) =
      .ok (if ∃ entry ∈ map.tree, r.intersects entry.first = true then none else some map.nodes) := by
  obtain ⟨_, found, searched, kept, same, sound, complete⟩ := intersects_ok maxCacheSize valid r
  unfold AddrRangeMap.insert
  rw [searched, ok_bind]
  cases found with
  | some it =>
    obtain ⟨entry, member, _, met⟩ := sound it rfl
    rw [if_pos ⟨entry, member, met⟩]
    rfl
  | none =>
    have clear := complete.mp rfl
    rw [if_neg]
    · dsimp only
      rw [insertNode_new kept nonempty (by rw [same.tree]; exact clear), same.nodes]
      rfl
    · intro ⟨entry, member, met⟩
      rw [clear entry member] at met
      cases met

theorem contains_alike {other : AddrRangeMap V} (valid : Valid map) (valid' : Valid other)
    (tree : other.tree = map.tree) (nonempty : r.Nonempty) :
    answer (other.contains maxCacheSize r) = answer (map.contains maxCacheSize r) := by
  obtain ⟨_, found, looked, _, _, exact⟩ := contains_ok maxCacheSize valid nonempty
  obtain ⟨_, found', looked', _, _, exact'⟩ := contains_ok maxCacheSize valid' nonempty
  rw [tree] at exact'
  have same : found' = found := ext fun it => (exact' it).trans (exact it).symm
  rw [looked, looked', same]
  rfl

theorem intersects_alike {other : AddrRangeMap V} (valid : Valid map) (valid' : Valid other)
    (tree : other.tree = map.tree) (r : AddrRange) :
    (answer (other.intersects maxCacheSize r)).map isSome = (answer (map.intersects maxCacheSize r)).map isSome := by
  obtain ⟨_, found, looked, _, _, _, exact⟩ := intersects_ok maxCacheSize valid r
  obtain ⟨_, found', looked', _, _, _, exact'⟩ := intersects_ok maxCacheSize valid' r
  rw [tree] at exact'
  have same : found'.isSome = found.isSome := by
    rw [Bool.eq_iff_iff, isSome_iff_ne_none, isSome_iff_ne_none, Ne, Ne, exact, exact']
  rw [looked, looked']
  simp only [answer, Except.map, same]

theorem Valid.exact (valid : Valid map) (nonempty : r.Nonempty) : Exact maxCacheSize map r := by
  have meets : ∀ entry ∈ map.tree, (r.intersects entry.first = true ↔ ∃ address, Within address r ∧ Within address entry.first) :=
    fun entry member => intersects_iff nonempty (valid.nonempty entry member)
  have unmet : (∀ entry ∈ map.tree, r.intersects entry.first = false) ↔
      ¬∃ entry ∈ map.tree, ∃ address, Within address r ∧ Within address entry.first := by
    simp only [not_exists, not_and, ← Bool.not_eq_true]
    exact forall₂_congr fun entry member => by rw [meets entry member]; simp
  constructor
  case inserts =>
    intro d
    obtain ⟨next, answer, inserted, _, effect⟩ := insert_ok maxCacheSize valid nonempty d
    refine ⟨next, answer, inserted, ?_⟩
    cases effect with
    | stored _ clear _ tree =>
      refine ⟨iff_of_true rfl (unmet.mp clear), ?_, nofun⟩
      intro other answered
      cases answered
      exact tree
    | rejected met tree =>
      obtain ⟨entry, member, met⟩ := met
      exact ⟨iff_of_false nofun (not_not.mpr ⟨entry, member, (meets entry member).mp met⟩), nofun, fun _ => tree⟩
  case contains =>
    obtain ⟨next, answer, found, _, same, exact⟩ := contains_ok maxCacheSize valid nonempty
    refine ⟨next, answer, found, same.tree, fun it => (exact it).trans ?_⟩
    simp only [isSubset_iff nonempty]
  case unique =>
    intro entry member other member' covers covers'
    exact valid.superset_unique nonempty member member' ((isSubset_iff nonempty).mpr covers)
      ((isSubset_iff nonempty).mpr covers')
  case intersects =>
    obtain ⟨next, answer, found, _, same, sound, complete⟩ := intersects_ok maxCacheSize valid r
    refine ⟨next, answer, found, same.tree, ?_, ?_⟩
    · intro it answered
      obtain ⟨entry, member, node, met⟩ := sound it answered
      exact ⟨entry, member, node, (meets entry member).mp met⟩
    · rw [isSome_iff_ne_none, Ne, complete, unmet, not_not]
  case inserts_alike =>
    intro d cache live
    rw [insert_answer maxCacheSize valid nonempty, insert_answer maxCacheSize (valid.recache live) nonempty]
  case contains_alike => exact fun cache live => contains_alike maxCacheSize valid (valid.recache live) rfl nonempty
  case intersects_alike => exact fun cache live => intersects_alike maxCacheSize valid (valid.recache live) rfl r

end

/-- However a map was built, it decodes every range exactly and whatever its cache
holds. -/
theorem decoding_exact (maxCacheSize : BitVec 32) (ops : List (RangeOp V))
    (each : Each (AddrRangeMap.step maxCacheSize) AddrRangeMap.Allowed {} ops) :
    ∃ map answers, run (AddrRangeMap.step maxCacheSize) {} ops = .ok (map, answers) ∧
      ∀ r, r.Nonempty → Exact maxCacheSize map r := by
  obtain ⟨map, answers, ran, valid⟩ := run_ok maxCacheSize each
  exact ⟨map, answers, ran, fun r nonempty => valid.exact maxCacheSize nonempty⟩

def history : List (RangeOp Unit) :=
  [.insert ⟨0x1000, 0x2000⟩ (), .insert ⟨0x2000, 0x3000⟩ (), .contains ⟨0x1800, 0x1801⟩, .intersects ⟨0x1fff, 0x2001⟩,
    .erase 0, .insert ⟨0x1000, 0x1800⟩ ()]

theorem decoding_exact_history :
    ∃ map answers, run (AddrRangeMap.step 1) {} history = .ok (map, answers) ∧
      ∀ r, r.Nonempty → Exact 1 map r :=
  decoding_exact 1 history (by decide)

end ImcGem5.Base.Proofs.RangeMap
