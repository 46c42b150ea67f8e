import ImcGem5.Base.RangeCache
import ImcGem5.Proofs.RangeMap

/-! The lookup cache of a map and the entries of its tree. A lookup caches what it found in the
tree, which the cache did not have, and so only the erase of several entries can leave an erased one. -/

namespace ImcGem5.Base.Interleaving.Proofs.RangeCache
open Lib Mem List

variable {V : Type} {map next : AddrRangeMap V} {r : AddrRange} {cond : Condition} {it node : Nat} {entry : RangeEntry V}
  {tree : List (RangeEntry V)} {maxCacheSize : BitVec 32} {p q : Option Nat} {answer : Option Nat}

/-- Every iterator in the cache denotes an entry in the tree, and none is there twice. -/
structure CacheOk (map : AddrRangeMap V) : Prop where
  alive : ∀ it ∈ map.cache, ∃ entry ∈ map.tree, entry.node = it
  once : map.cache.Nodup

structure Numbered (map : AddrRangeMap V) : Prop where
  distinct : (map.tree.map RangeEntry.node).Nodup
  allocated : ∀ entry ∈ map.tree, entry.node < map.nodes

/-- What the erase of several entries erases is not in the cache, except for the first. -/
def Spares (map : AddrRangeMap V) : RangeMapOp V → Prop
  | .eraseRange p q => ∀ erased, map.between p q = .ok erased → ∀ it ∈ erased, it ∈ map.cache → some it = p
  | _ => True

instance (map : AddrRangeMap V) : DecidablePred (Spares map)
  | .eraseRange p q =>
    match reached : map.between p q with
    | .error _ => .isTrue fun _ ended => nomatch reached.symm.trans ended
    | .ok erased => decidable_of_iff (∀ it ∈ erased, it ∈ map.cache → some it = p)
      ⟨fun spares _ ended => Except.ok.inj (reached.symm.trans ended) ▸ spares, fun spares => spares erased reached⟩
  | .insert _ _ | .erase _ | .clear | .contains _ | .intersects _ => .isTrue trivial

section Lookups

theorem deref_member (found : map.deref it = .ok entry) : entry ∈ map.tree ∧ entry.node = it := by
  unfold AddrRangeMap.deref at found
  split at found
  · case h_1 searched =>
      cases found
      exact ⟨mem_of_find?_eq_some searched, by simpa using find?_some searched⟩
  · cases found

theorem searchCache_member {c : List Nat} (found : map.searchCache cond c = .ok (some it)) : it ∈ c := by
  induction c with
  | nil => cases found
  | cons _ _ ih =>
    obtain ⟨_, -, found⟩ := of_bind found
    obtain ⟨_, -, found⟩ := of_bind found
    split at found
    · cases found
      exact mem_cons_self
    · exact mem_cons_of_mem _ (ih found)

theorem searchCache_missed (numbered : Numbered map) {c : List Nat} (missed : map.searchCache cond c = .ok none)
    (member : entry ∈ map.tree) (matching : cond entry.first = .ok true) : entry.node ∉ c := by
  induction c with
  | nil => exact not_mem_nil
  | cons _ _ ih =>
    obtain ⟨_, found, missed⟩ := of_bind missed
    obtain ⟨_, tested, missed⟩ := of_bind missed
    obtain ⟨member', rfl⟩ := deref_member found
    split at missed
    · cases missed
    · intro cached
      obtain same | later := mem_cons.mp cached
      · obtain rfl := inj_on_of_nodup_map numbered.distinct member member' same
        cases matching.symm.trans tested
        contradiction
      · exact ih missed later

theorem walkBack_member {earlier : List (RangeEntry V)} {i : RangeEntry V} (found : walkBack cond i earlier = .ok (some it)) :
    ∃ entry ∈ i :: earlier, entry.node = it ∧ cond entry.first = .ok true := by
  induction earlier generalizing i with
  | nil =>
    obtain ⟨matching, tested, found⟩ := of_bind found
    split at found
    · cases found
      exact ⟨i, mem_cons_self, rfl, by rwa [‹matching = true›] at tested⟩
    · cases found
  | cons _ _ ih =>
    obtain ⟨matching, tested, found⟩ := of_bind found
    split at found
    · cases found
      exact ⟨i, mem_cons_self, rfl, by rwa [‹matching = true›] at tested⟩
    · split at found
      · obtain ⟨entry, member, hit⟩ := ih found
        exact ⟨entry, mem_cons_of_mem _ member, hit⟩
      · cases found

theorem searchTree_member (found : searchTree tree r cond = .ok (some it)) :
    ∃ entry ∈ tree, entry.node = it ∧ cond entry.first = .ok true := by
  obtain ⟨fits, tested, found⟩ := of_bind found
  cases fits with
  | some =>
    cases found
    cases later : tree.dropWhile (notAfter r) with
    | nil =>
      rw [later] at tested
      cases tested
    | cons entry =>
      rw [later] at tested
      obtain ⟨matching, met, fits⟩ := of_bind tested
      split at fits
      · cases fits
        refine ⟨entry, (dropWhile_sublist _).subset (later ▸ mem_cons_self), rfl, ?_⟩
        rwa [‹matching = true›] at met
      · cases fits
  | none =>
    cases backwards : (tree.takeWhile (notAfter r)).reverse with
    | nil =>
      rw [backwards] at found
      cases found
    | cons =>
      rw [backwards] at found
      obtain ⟨entry, member, hit⟩ := walkBack_member found
      rw [← backwards, mem_reverse] at member
      exact ⟨entry, (takeWhile_sublist _).subset member, hit⟩

theorem addNewEntryToCache_nodup {cache : List Nat} (once : cache.Nodup) (fresh : it ∉ cache) :
    (Base.AddrRangeMap.addNewEntryToCache maxCacheSize cache it).Nodup := by
  have shorter := dropLast_sublist cache
  have absent : it ∉ cache.dropLast := fun member => fresh (shorter.subset member)
  unfold Base.AddrRangeMap.addNewEntryToCache
  split_ifs
  · exact nodup_cons.mpr ⟨absent, once.sublist shorter⟩
  · exact nodup_append.mpr ⟨once.sublist shorter, nodup_singleton it,
      fun _ kept _ last => fun same => absent (mem_singleton.mp last ▸ same ▸ kept)⟩
  · exact nodup_cons.mpr ⟨fresh, once⟩
  · exact once

theorem find_keeps (numbered : Numbered map) (ok : CacheOk map) (found : map.find maxCacheSize r cond = .ok (next, answer)) :
    next.tree = map.tree ∧ next.nodes = map.nodes ∧ CacheOk next := by
  obtain ⟨cached, searched, found⟩ := of_bind found
  cases cached with
  | some =>
    cases found
    have member := searchCache_member searched
    have perm := perm_cons_erase member
    exact ⟨rfl, rfl, fun other kept => ok.alive other (perm.mem_iff.mpr kept), perm.nodup_iff.mp ok.once⟩
  | none =>
    obtain ⟨inTree, search, found⟩ := of_bind found
    cases inTree with
    | none =>
      cases found
      exact ⟨rfl, rfl, ok⟩
    | some =>
      cases found
      obtain ⟨entry, member, rfl, matching⟩ := searchTree_member search
      refine ⟨rfl, rfl, fun other kept => ?_, addNewEntryToCache_nodup ok.once (searchCache_missed numbered searched member matching)⟩
      obtain rfl | kept := Base.Proofs.RangeMap.addNewEntryToCache_subset kept
      · exact ⟨entry, member, rfl⟩
      · exact ok.alive other kept

end Lookups

section Steps

theorem Numbered.fewer (numbered : Numbered map) (fewer : next.tree.Sublist map.tree) (nodes : next.nodes = map.nodes) : Numbered next where
  distinct := numbered.distinct.sublist (fewer.map _)
  allocated entry member := nodes ▸ numbered.allocated entry (fewer.subset member)

theorem insertNode_keeps (numbered : Numbered map) (ok : CacheOk map) (d : V) :
    Numbered (map.insertNode r d).1 ∧ CacheOk (map.insertNode r d).1 := by
  have split_tree := takeWhile_append_dropWhile (p := notAfter r) (l := map.tree)
  unfold AddrRangeMap.insertNode
  split
  · exact ⟨numbered, ok⟩
  · have perm : (map.tree.takeWhile (notAfter r) ++ ⟨map.nodes, r, d⟩ :: map.tree.dropWhile (notAfter r)).Perm _ := perm_middle
    rw [split_tree] at perm
    refine ⟨⟨?_, ?_⟩, fun other cached => ?_, ok.once⟩
    · rw [(perm.map _).nodup_iff, map_cons, nodup_cons]
      refine ⟨fun member => ?_, numbered.distinct⟩
      obtain ⟨entry, member, same⟩ := mem_map.mp member
      exact (numbered.allocated entry member).ne same
    · intro entry member
      obtain rfl | member := mem_cons.mp (perm.mem_iff.mp member)
      · exact Nat.lt_succ_self _
      · exact (numbered.allocated entry member).trans (Nat.lt_succ_self _)
    · obtain ⟨entry, member, same⟩ := ok.alive other cached
      exact ⟨entry, perm.mem_iff.mpr (mem_cons_of_mem _ member), same⟩

theorem erase_keeps (numbered : Numbered map) (ok : CacheOk map) (erased : map.erase it = .ok next) : Numbered next ∧ CacheOk next := by
  obtain ⟨-, -, erased⟩ := of_bind erased
  cases erased
  refine ⟨numbered.fewer filter_sublist rfl, fun other cached => ?_, ok.once.filter _⟩
  obtain ⟨cached, kept⟩ := mem_filter.mp cached
  obtain ⟨entry, member, rfl⟩ := ok.alive other cached
  exact ⟨entry, mem_filter.mpr ⟨member, kept⟩, rfl⟩

theorem mem_foldl_filter {turns cache : List Nat} {keep : Nat → Bool} :
    it ∈ turns.foldl (fun cache _ => cache.filter keep) cache ↔ it ∈ cache ∧ (turns = [] ∨ keep it = true) := by
  induction turns generalizing cache with
  | nil => simp
  | cons _ _ ih =>
    rw [foldl_cons, ih, mem_filter]
    simp only [reduceCtorEq, false_or]
    tauto

theorem foldl_filter_sublist {turns cache : List Nat} {keep : Nat → Bool} :
    (turns.foldl (fun cache _ => cache.filter keep) cache).Sublist cache := by
  induction turns generalizing cache with
  | nil => exact List.Sublist.refl _
  | cons _ _ ih => exact ih.trans filter_sublist

theorem Numbered.eraseRange (numbered : Numbered map) (erased : map.eraseRange p q = .ok next) : Numbered next := by
  obtain ⟨_, -, erased⟩ := of_bind erased
  cases erased
  exact numbered.fewer filter_sublist rfl

theorem eraseRange_iff (ok : CacheOk map) (done : map.eraseRange p q = .ok next) : CacheOk next ↔ Spares map (.eraseRange p q) := by
  obtain ⟨erased, reached, done⟩ := of_bind done
  cases done
  constructor
  · rintro ⟨alive, -⟩ _ ended it gone cached
    cases reached.symm.trans ended
    by_contra other
    obtain ⟨entry, member, rfl⟩ := alive it (mem_foldl_filter.mpr ⟨cached, .inr (bne_iff_ne.mpr other)⟩)
    obtain ⟨-, kept⟩ := mem_filter.mp member
    rw [contains_iff_mem.mpr gone] at kept
    cases kept
  · intro spares
    refine ⟨fun it cached => ?_, ok.once.sublist foldl_filter_sublist⟩
    obtain ⟨cached, removed⟩ := mem_foldl_filter.mp cached
    obtain ⟨entry, member, rfl⟩ := ok.alive it cached
    have stays : entry.node ∉ erased := by
      intro gone
      obtain rfl | other := removed
      · cases gone
      · exact bne_iff_ne.mp other (spares erased reached _ gone cached)
    exact ⟨entry, mem_filter.mpr ⟨member, by simpa using stays⟩, rfl⟩

theorem looked_up (numbered : Numbered map) (ok : CacheOk map) (found : map.find maxCacheSize r cond = .ok (next, answer)) :
    Numbered next ∧ CacheOk next := by
  obtain ⟨tree, nodes, ok⟩ := find_keeps numbered ok found
  exact ⟨numbered.fewer (tree ▸ List.Sublist.refl _) nodes, ok⟩

theorem insert_keeps (numbered : Numbered map) (ok : CacheOk map) {d : V} (inserted : map.insert maxCacheSize r d = .ok (next, answer)) :
    Numbered next ∧ CacheOk next := by
  obtain ⟨⟨_, met⟩, found, inserted⟩ := of_bind inserted
  obtain ⟨numbered, ok⟩ := looked_up numbered ok found
  cases met with
  | some =>
    cases inserted
    exact ⟨numbered, ok⟩
  | none =>
    cases inserted
    exact insertNode_keeps numbered ok d

theorem step_exact (op : RangeMapOp V) {labels : List (Option Nat)} (numbered : Numbered map) (ok : CacheOk map)
    (taken : map.step maxCacheSize op = .ok (next, labels)) : Numbered next ∧ (CacheOk next ↔ Spares map op) := by
  have always (kept : Numbered next ∧ CacheOk next) : Numbered next ∧ (CacheOk next ↔ True) := ⟨kept.1, iff_true_intro kept.2⟩
  cases op with
  | insert =>
    obtain ⟨⟨_, _⟩, inserted, taken⟩ := of_bind taken
    cases taken
    exact always (insert_keeps numbered ok inserted)
  | erase =>
    obtain ⟨_, erased, taken⟩ := of_bind taken
    cases taken
    exact always (erase_keeps numbered ok erased)
  | eraseRange =>
    obtain ⟨_, erased, taken⟩ := of_bind taken
    cases taken
    exact ⟨numbered.eraseRange erased, eraseRange_iff ok erased⟩
  | clear =>
    cases taken
    exact always ⟨⟨nodup_nil, nofun⟩, ⟨nofun, nodup_nil⟩⟩
  | contains | intersects =>
    obtain ⟨⟨_, _⟩, found, taken⟩ := of_bind taken
    cases taken
    exact always (looked_up numbered ok found)

end Steps

/-- The cache is good throughout exactly if no erase of several entries erases a cached one other
than the first. -/
theorem cache_ok_iff (maxCacheSize : BitVec 32) (ops : List (RangeMapOp V)) {final : AddrRangeMap V} {labels : List (Option Nat)}
    (ran : run (AddrRangeMap.step maxCacheSize) {} ops = .ok (final, labels)) :
    (∀ before after middle past, ops = before ++ after → run (AddrRangeMap.step maxCacheSize) {} before = .ok (middle, past) → CacheOk middle) ↔
      Each (AddrRangeMap.step maxCacheSize) Spares {} ops :=
  run_always_iff (fun _ _ => True) Spares Numbered CacheOk (fun _ op _ _ numbered ok _ taken => (step_exact op numbered ok taken).1)
    (fun _ op _ _ numbered ok _ taken => (step_exact op numbered ok taken).2)
    ⟨nodup_nil, nofun⟩ ⟨nofun, nodup_nil⟩ (each_of_forall (fun _ _ _ => trivial) _) ran

def lookups : List (RangeMapOp Unit) :=
  [.insert (.plain 0x1000 0x2000) (), .insert (.plain 0x2000 0x3000) (), .contains (.plain 0x1800 0x1801), .contains (.plain 0x2800 0x2801)]

def eraseFirst : List (RangeMapOp Unit) := lookups ++ [.eraseRange (some 0) (some 1)]

theorem cache_ok_iff_first : ∃ final labels, run (AddrRangeMap.step 2) {} eraseFirst = .ok (final, labels) ∧
    ∀ before after middle past, eraseFirst = before ++ after → run (AddrRangeMap.step 2) {} before = .ok (middle, past) → CacheOk middle :=
  ⟨_, _, rfl, (cache_ok_iff 2 eraseFirst rfl).mpr (by decide)⟩

/-- Erasing both leaves the second in the cache. -/
theorem cache_not_ok : ∃ final labels, run (AddrRangeMap.step 2) {} (lookups ++ [.eraseRange (some 0) none]) = .ok (final, labels) ∧
    final.cache = [1] ∧ final.tree.isEmpty ∧ ¬CacheOk final := by
  refine ⟨_, _, rfl, rfl, rfl, fun ok => ?_⟩
  obtain ⟨_, member, _⟩ := ok.alive 1 mem_cons_self
  cases member

end ImcGem5.Base.Interleaving.Proofs.RangeCache
