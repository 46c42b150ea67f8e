import ImcGem5.Proofs.Tlb

/-! The slots of the TLB, whatever pages are put into them. A slot is on the free list or in
the trie, and a full TLB evicts the slot that was used the longest time ago, as long as its
sequence numbers do not wrap. -/

namespace ImcGem5.Riscv.Proofs.TlbSlots
open Lib Base Base.Proofs Mem Tlb List BitVec Function
open BitVec (ofNat)

/-- Slots and trie point at each other; the empty slots are listed. -/
structure Slots (size : Nat) (tlb : TLB) : Prop where
  length : tlb.tlb.length = size
  trie : Trie.Valid tlb.trie
  stored : ∀ handle stored, Trie.entryAt tlb.trie handle = some stored →
    ∃ entry, tlb.tlb[stored.value]? = some entry ∧ entry.trieHandle = some handle
  held : ∀ (idx : Nat) (entry : TlbEntry) handle, tlb.tlb[idx]? = some entry → entry.trieHandle = some handle →
    ∃ stored, Trie.entryAt tlb.trie handle = some stored ∧ stored.value = idx
  free : ∀ idx ∈ tlb.freeList, ∃ entry, tlb.tlb[idx]? = some entry ∧ entry.trieHandle = none
  unused : ∀ (idx : Nat) (entry : TlbEntry), tlb.tlb[idx]? = some entry → entry.trieHandle = none → idx ∈ tlb.freeList
  distinct : tlb.freeList.Nodup

/-- Every slot is once on the free list, with no handle, or off it, with the handle of a node
that holds it. -/
structure Accounted (size : Nat) (tlb : TLB) : Prop where
  length : tlb.tlb.length = size
  slots : ∀ (idx : Nat) (entry : TlbEntry), tlb.tlb[idx]? = some entry →
    (tlb.freeList.count idx = 1 ∧ entry.trieHandle = none) ∨
    (tlb.freeList.count idx = 0 ∧ ∃ handle node, entry.trieHandle = some handle ∧ tlb.trie.cell handle = some node ∧
      node.value = some idx)
  free : ∀ idx ∈ tlb.freeList, idx < size

variable {size : Nat} {tlb : TLB}

theorem Slots.accounted (slots : Slots size tlb) : Accounted size tlb where
  length := slots.length
  slots idx entry place := by
    cases points : entry.trieHandle with
    | none => exact .inl ⟨count_eq_one_of_mem slots.distinct (slots.unused idx entry place points), rfl⟩
    | some handle =>
      right
      constructor
      · apply count_eq_zero_of_not_mem
        intro member
        obtain ⟨_, place', none_⟩ := slots.free idx member
        rw [place, Option.some.injEq] at place'
        rw [place', none_] at points
        cases points
      · obtain ⟨_, found, rfl⟩ := slots.held idx entry handle place points
        obtain ⟨node, _, cell, holds, rfl⟩ := Trie.entryAt_some.mp found
        exact ⟨handle, node, rfl, cell, holds⟩
  free idx member := by
    obtain ⟨entry, place, _⟩ := slots.free idx member
    rw [← slots.length]
    exact (List.getElem?_eq_some_iff.mp place).1

theorem new_slots (size : Nat) : Slots size (TLB.new size) where
  length := length_replicate
  trie := Trie.empty_valid
  stored handle stored found := by
    rw [TLB.new, Trie.entryAt_empty] at found
    cases found
  held idx entry handle place points := by
    rw [eq_of_mem_replicate (mem_of_getElem? place)] at points
    cases points
  free idx member := by
    refine ⟨{}, ?_, rfl⟩
    rw [TLB.new, getElem?_replicate, if_pos (mem_range.mp member)]
  unused idx entry place _ := by
    have inside := (List.getElem?_eq_some_iff.mp place).1
    rw [TLB.new, length_replicate] at inside
    exact mem_range.mpr inside
  distinct := nodup_range

def Same (tlb next : TLB) (idx : Nat) : Prop :=
  ∀ entry, Holds next idx entry → ∃ before, Holds tlb idx before ∧ before.lruSeq = entry.lruSeq

/-- Entries may go but none is new. -/
structure Fewer (tlb next : TLB) : Prop where
  lruSeq : next.lruSeq = tlb.lruSeq
  used : ∀ idx, Same tlb next idx
  stored : ∀ handle stored, Trie.entryAt next.trie handle = some stored → Trie.entryAt tlb.trie handle = some stored

theorem Same.refl (tlb : TLB) (idx : Nat) : Same tlb tlb idx := fun entry holds => ⟨entry, holds, rfl⟩

variable {idx : Nat}

theorem Same.trans {first second third : TLB} (one : Same first second idx) (two : Same second third idx) : Same first third idx := by
  intro entry holds
  obtain ⟨middle, held, same⟩ := two entry holds
  obtain ⟨before, old, equal⟩ := one middle held
  exact ⟨before, old, equal.trans same⟩

theorem Fewer.refl (tlb : TLB) : Fewer tlb tlb := ⟨rfl, .refl tlb, fun _ _ found => found⟩

theorem Fewer.trans {first second third : TLB} (one : Fewer first second) (two : Fewer second third) : Fewer first third :=
  ⟨two.lruSeq.trans one.lruSeq, fun idx => (one.used idx).trans (two.used idx),
    fun handle stored found => one.stored handle stored (two.stored handle stored found)⟩

section
variable {size : Nat} {tlb : TLB} (slots : Slots size tlb)
include slots

theorem Slots.entry (inside : idx < size) : ∃ entry, tlb.tlb[idx]? = some entry := by
  rw [List.getElem?_eq_getElem (by rw [slots.length]; exact inside)]
  exact ⟨_, rfl⟩

theorem Slots.remove {entry : TlbEntry} (holds : Holds tlb idx entry) :
    ∃ next, tlb.remove idx = .ok next ∧ Slots size next ∧ Fewer tlb next ∧ next.freeList = tlb.freeList ++ [idx] := by
  obtain ⟨place, used⟩ := holds
  obtain ⟨handle, points⟩ := Option.isSome_iff_exists.mp used
  obtain ⟨_, live, same⟩ := slots.held idx entry handle place points
  obtain ⟨trie, removed, rest⟩ := Trie.remove_ok slots.trie live
  have fresh : idx ∉ tlb.freeList := by
    intro member
    obtain ⟨other, place', none_⟩ := slots.free idx member
    rw [place, Option.some.injEq] at place'
    rw [place', none_] at points
    cases points
  refine ⟨{ tlb with trie, tlb := tlb.tlb.set idx { entry with trieHandle := none }, freeList := tlb.freeList ++ [idx] },
    ?_, ⟨?_, rest.valid, ?_, ?_, ?_, ?_, ?_⟩, ⟨rfl, ?_, ?_⟩, rfl⟩
  · rw [TLB.remove, entry_ok place, ok_bind, points]
    dsimp only
    rw [removed]
    rfl
  · exact length_set.trans slots.length
  · intro other stored found
    rw [rest.entries] at found
    split at found
    · cases found
    · next different =>
      obtain ⟨entry', place', points'⟩ := slots.stored other stored found
      have apart : stored.value ≠ idx := by
        intro here
        rw [here, place, Option.some.injEq] at place'
        rw [place', points', Option.some.injEq] at points
        exact different points
      exact ⟨entry', by rw [getElem?_set_there apart]; exact place', points'⟩
  · intro other entry' handle' place' points'
    obtain ⟨rfl, rfl⟩ | ⟨apart, place'⟩ := getElem?_set_cases place'
    · cases points'
    · obtain ⟨stored, found, value⟩ := slots.held other entry' handle' place' points'
      have different : handle' ≠ handle := by
        rintro rfl
        rw [live, Option.some.injEq] at found
        rw [found, value] at same
        exact apart same
      refine ⟨stored, ?_, value⟩
      rw [rest.entries, if_neg different]
      exact found
  · intro other member
    obtain old | new := mem_concat.mp member
    · obtain ⟨entry', place', none_⟩ := slots.free other old
      have apart : other ≠ idx := fun here => fresh (here ▸ old)
      exact ⟨entry', by rw [getElem?_set_there apart]; exact place', none_⟩
    · rw [new]
      exact ⟨_, getElem?_set_here place, rfl⟩
  · intro other entry' place' none_
    rw [mem_append]
    obtain ⟨rfl, _⟩ | ⟨_, place'⟩ := getElem?_set_cases place'
    · exact .inr (mem_singleton_self _)
    · exact .inl (slots.unused other entry' place' none_)
  · refine nodup_append.mpr ⟨slots.distinct, nodup_singleton _, ?_⟩
    rintro other old _ new rfl
    rw [mem_singleton.mp new] at old
    exact fresh old
  · rintro other entry' ⟨place', used'⟩
    obtain ⟨rfl, rfl⟩ | ⟨_, place'⟩ := getElem?_set_cases place'
    · cases used'
    · exact ⟨entry', ⟨place', used'⟩, rfl⟩
  · intro other stored found
    rw [rest.entries] at found
    split at found
    · cases found
    · exact found

theorem Slots.touch {before after : TlbEntry} (place : tlb.tlb[idx]? = some before)
    (same : after.trieHandle = before.trieHandle) (lruSeq : BitVec 64) :
    Slots size { tlb with lruSeq, tlb := tlb.tlb.set idx after } := by
  refine ⟨length_set.trans slots.length, slots.trie, ?_, ?_, ?_, ?_, slots.distinct⟩
  · intro handle stored found
    obtain ⟨entry, there, points⟩ := slots.stored handle stored found
    by_cases here : stored.value = idx
    · rw [here, place, Option.some.injEq] at there
      exact ⟨after, by rw [here]; exact getElem?_set_here place, by rw [same, there]; exact points⟩
    · exact ⟨entry, by rw [getElem?_set_there here]; exact there, points⟩
  · intro other entry handle there points
    obtain ⟨rfl, rfl⟩ | ⟨_, there⟩ := getElem?_set_cases there
    · exact slots.held other before handle place (same.symm.trans points)
    · exact slots.held other entry handle there points
  · intro other member
    obtain ⟨entry, there, none_⟩ := slots.free other member
    by_cases here : other = idx
    · rw [here, place, Option.some.injEq] at there
      exact ⟨after, by rw [here]; exact getElem?_set_here place, by rw [same, there]; exact none_⟩
    · exact ⟨entry, by rw [getElem?_set_there here]; exact there, none_⟩
  · intro other entry there none_
    obtain ⟨rfl, rfl⟩ | ⟨_, there⟩ := getElem?_set_cases there
    · exact slots.unused other before place (same.symm.trans none_)
    · exact slots.unused other entry there none_

omit slots in
theorem same_of_set {other : Nat} {after : TlbEntry} {lruSeq : BitVec 64} (apart : other ≠ idx) :
    Same tlb { tlb with lruSeq, tlb := tlb.tlb.set idx after } other := by
  rintro entry ⟨place, used⟩
  obtain ⟨same, _⟩ | ⟨_, place⟩ := getElem?_set_cases place
  · exact absurd same apart
  · exact ⟨entry, ⟨place, used⟩, rfl⟩

theorem Slots.search (key : BitVec 64) : ∃ found, tlb.trie.lookup key = .ok found ∧
    (∀ idx, found = some idx → ∃ entry, Holds tlb idx entry) ∧
    (found = none → ∀ handle stored, Trie.entryAt tlb.trie handle = some stored → ¬stored.Matches key) := by
  obtain ⟨handle, _, shortest⟩ := Trie.lookupHandle_ok slots.trie.linked key
  refine ⟨_, (Trie.lookup_ok slots.trie.linked _ shortest).2, ?_⟩
  cases shortest with
  | @found handle stored live matching least =>
    rw [Option.bind_some, live]
    refine ⟨?_, nofun⟩
    rintro idx ⟨⟩
    obtain ⟨entry, place, points⟩ := slots.stored handle stored live
    exact ⟨entry, place, by rw [points]; rfl⟩
  | missing none_ => exact ⟨nofun, fun _ => none_⟩

theorem Slots.removeEach (hit : TlbEntry → Bool) (places i : Nat) (inside : i + places ≤ size) :
    ∃ next, TLB.removeEach hit places i tlb = .ok next ∧ Slots size next ∧ Fewer tlb next := by
  induction places generalizing i tlb with
  | zero => exact ⟨tlb, rfl, slots, .refl tlb⟩
  | succ _ ih =>
    have here : i < size := by omega
    obtain ⟨entry, place⟩ := slots.entry here
    rw [TLB.removeEach, entry_ok place, ok_bind]
    split
    next goes =>
      obtain ⟨used, _⟩ := Bool.and_eq_true_iff.mp goes
      obtain ⟨_, removed, kept, fewer, _⟩ := slots.remove ⟨place, used⟩
      obtain ⟨next, ran, final, less⟩ := ih kept (i + 1) (by omega)
      exact ⟨next, by rw [removed]; exact ran, final, fewer.trans less⟩
    next => exact ih slots (i + 1) (by omega)

theorem Slots.flushAll : ∃ next, tlb.flushAll = .ok next ∧ Slots size next ∧ Fewer tlb next :=
  slots.removeEach _ _ 0 (by rw [Nat.zero_add, slots.length])

theorem Slots.demapPage (vpn : Addr) (asn : BitVec 64) :
    ∃ next, tlb.demapPage vpn asn = .ok next ∧ Slots size next ∧ Fewer tlb next := by
  unfold TLB.demapPage
  dsimp only
  split
  next => exact slots.flushAll
  next =>
    split
    next =>
      obtain ⟨found, searched, here, _⟩ := slots.search (buildKey vpn (asn.setWidth 16))
      unfold TLB.lookup
      rw [searched]
      cases found with
      | none => exact ⟨tlb, rfl, slots, .refl tlb⟩
      | some idx =>
        obtain ⟨_, holds⟩ := here idx rfl
        obtain ⟨next, removed, kept, fewer, _⟩ := slots.remove holds
        exact ⟨next, removed, kept, fewer⟩
    next => exact slots.removeEach _ _ 0 (by rw [Nat.zero_add, slots.length])

end

theorem leastRecent_spec (list : List TlbEntry) (i lru : Nat) (least : BitVec 64) :
    (TLB.leastRecent list i lru least = lru ∧ ∀ entry ∈ list, least ≤ entry.lruSeq) ∨
    ∃ (k : Nat) (entry : TlbEntry), list[k]? = some entry ∧ TLB.leastRecent list i lru least = i + k ∧ entry.lruSeq < least ∧
      ∀ other ∈ list, entry.lruSeq ≤ other.lruSeq := by
  induction list generalizing i lru least with
  | nil => exact .inl ⟨rfl, fun _ member => absurd member not_mem_nil⟩
  | cons first _ ih =>
    rw [TLB.leastRecent]
    split
    next smaller =>
      right
      obtain ⟨same, least_⟩ | ⟨k, entry, place, same, below, least_⟩ := ih (i + 1) i first.lruSeq
      · exact ⟨0, first, rfl, same, smaller, forall_mem_cons.mpr ⟨BitVec.le_refl _, least_⟩⟩
      · refine ⟨k + 1, entry, place, by rw [same]; omega, BitVec.lt_trans below smaller, ?_⟩
        exact forall_mem_cons.mpr ⟨BitVec.le_of_lt below, least_⟩
    next larger =>
      have larger : least ≤ first.lruSeq := BitVec.not_lt.mp larger
      obtain ⟨same, least_⟩ | ⟨k, entry, place, same, below, least_⟩ := ih (i + 1) lru least
      · exact .inl ⟨same, forall_mem_cons.mpr ⟨larger, least_⟩⟩
      · right
        refine ⟨k + 1, entry, place, by rw [same]; omega, below, ?_⟩
        exact forall_mem_cons.mpr ⟨BitVec.le_trans (BitVec.le_of_lt below) larger, least_⟩

/-- Eviction drops a slot used least recently. -/
structure Least (tlb : TLB) (idx : Nat) : Prop where
  evicts : tlb.evictLRU = tlb.remove idx
  least : ∃ entry, tlb.tlb[idx]? = some entry ∧ ∀ other ∈ tlb.tlb, entry.lruSeq ≤ other.lruSeq

theorem leastRecent_least {first : TlbEntry} {rest : List TlbEntry} (vector : tlb.tlb = first :: rest) :
    Least tlb (TLB.leastRecent rest 1 0 first.lruSeq) := by
  refine ⟨by rw [TLB.evictLRU, vector], ?_⟩
  rw [vector]
  obtain ⟨same, least⟩ | ⟨k, entry, place, same, below, least⟩ := leastRecent_spec rest 1 0 first.lruSeq
  · rw [same]
    exact ⟨first, rfl, forall_mem_cons.mpr ⟨BitVec.le_refl _, least⟩⟩
  · rw [same, Nat.add_comm]
    exact ⟨entry, place, forall_mem_cons.mpr ⟨BitVec.le_of_lt below, least⟩⟩

theorem evictLRU_least (some : tlb.tlb ≠ []) : ∃ idx, Least tlb idx := by
  obtain ⟨_, _, vector⟩ := exists_cons_of_ne_nil some
  exact ⟨_, leastRecent_least vector⟩

section
variable {size : Nat} {tlb : TLB} (slots : Slots size tlb)
include slots

theorem Slots.full (none_ : tlb.freeList = []) {entry : TlbEntry} (place : tlb.tlb[idx]? = some entry) : Holds tlb idx entry := by
  refine ⟨place, ?_⟩
  cases points : entry.trieHandle with
  | some => rfl
  | none =>
    have member := slots.unused idx entry place points
    rw [none_] at member
    exact absurd member not_mem_nil

theorem Slots.makeFree (positive : 0 < size) :
    ∃ middle idx rest, (if tlb.freeList.isEmpty then tlb.evictLRU else .ok tlb) = .ok middle ∧ Slots size middle ∧
      Fewer tlb middle ∧ middle.freeList = idx :: rest ∧ (tlb.freeList = [] → Least tlb idx) := by
  cases free : tlb.freeList with
  | cons idx rest => exact ⟨tlb, idx, rest, rfl, slots, .refl tlb, free, nofun⟩
  | nil =>
    have some : tlb.tlb ≠ [] := by
      intro empty
      have length := slots.length
      rw [empty, length_nil] at length
      omega
    obtain ⟨idx, least⟩ := evictLRU_least some
    obtain ⟨_, place, _⟩ := least.least
    obtain ⟨middle, removed, kept, fewer, list⟩ := slots.remove (slots.full free place)
    rw [free] at list
    exact ⟨middle, idx, [], by rw [← removed, ← least.evicts]; rfl, kept, fewer, list, fun _ => least⟩

theorem Slots.fill {rest : List Nat} (front : tlb.freeList = idx :: rest) {new : TlbEntry} {trie : Trie 64 Nat}
    {handle : Nat} {stored : Trie.Entry 64 Nat} (added : Trie.Added tlb.trie trie handle stored) (value : stored.value = idx)
    (points : new.trieHandle = some handle) (lruSeq : BitVec 64) :
    Slots size { tlb with trie, lruSeq, freeList := rest, tlb := tlb.tlb.set idx new } := by
  have distinct := slots.distinct
  rw [front] at distinct
  obtain ⟨fresh, distinct⟩ := nodup_cons.mp distinct
  obtain ⟨_, place, none_⟩ := slots.free idx (by rw [front]; exact mem_cons_self)
  refine ⟨length_set.trans slots.length, added.valid, ?_, ?_, ?_, ?_, distinct⟩
  · intro other stored' found
    rw [added.entries] at found
    split at found
    · next same =>
      cases found
      exact ⟨new, by rw [value]; exact getElem?_set_here place, same ▸ points⟩
    · obtain ⟨entry, place', points'⟩ := slots.stored other stored' found
      have apart : stored'.value ≠ idx := by
        intro same
        rw [same, place, Option.some.injEq] at place'
        rw [← place', none_] at points'
        cases points'
      exact ⟨entry, by rw [getElem?_set_there apart]; exact place', points'⟩
  · intro other entry handle' place' points'
    obtain ⟨rfl, rfl⟩ | ⟨_, place'⟩ := getElem?_set_cases place'
    · rw [points, Option.some.injEq] at points'
      exact ⟨stored, by rw [added.entries, if_pos points'.symm], value⟩
    · obtain ⟨stored', found, value'⟩ := slots.held other entry handle' place' points'
      have different : handle' ≠ handle := by
        rintro rfl
        rw [added.free] at found
        cases found
      exact ⟨stored', by rw [added.entries, if_neg different]; exact found, value'⟩
  · intro other member
    obtain ⟨entry, place', unused⟩ := slots.free other (by rw [front]; exact mem_cons_of_mem _ member)
    have apart : other ≠ idx := fun same => fresh (same ▸ member)
    exact ⟨entry, by rw [getElem?_set_there apart]; exact place', unused⟩
  · intro other entry place' unused
    obtain ⟨rfl, rfl⟩ | ⟨apart, place'⟩ := getElem?_set_cases place'
    · rw [points] at unused
      cases unused
    · have member := slots.unused other entry place' unused
      rw [front] at member
      exact (mem_cons.mp member).resolve_left apart

/-- A slot is used: it gets the next sequence number, and no other slot comes into use. -/
structure Used (tlb next : TLB) (idx : Nat) : Prop where
  lruSeq : next.lruSeq = tlb.lruSeq + 1
  here : ∃ entry, Holds next idx entry ∧ entry.lruSeq = next.lruSeq
  others : ∀ other, other ≠ idx → Same tlb next other

theorem Slots.insert_new (positive : 0 < size) {vpn : Addr} {entry : TlbEntry} (paged : entry.logBytes < 64)
    (missed : tlb.trie.lookup (buildKey vpn entry.asid) = .ok none) :
    ∃ next idx, tlb.insert vpn entry = .ok (next, idx) ∧ Slots size next ∧ Used tlb next idx ∧
      (tlb.freeList = [] → Least tlb idx) := by
  obtain ⟨found, searched, _, none_⟩ := slots.search (buildKey vpn entry.asid)
  obtain ⟨middle, idx, rest, made, kept, fewer, front, least⟩ := slots.makeFree positive
  have absent : Trie.Absent (Trie.entryAt middle.trie) (buildKey vpn entry.asid) (64 - entry.logBytes) := by
    intro handle stored found _
    rw [searched, Except.ok.injEq] at missed
    exact none_ missed handle stored (fewer.stored handle stored found)
  obtain ⟨trie, handle, inserted, added⟩ :=
    Trie.insert_ok kept.trie (buildKey vpn entry.asid) (by omega) (Nat.sub_le _ _) idx absent
  obtain ⟨old, place, _⟩ := kept.free idx (by rw [front]; exact mem_cons_self)
  refine ⟨{ middle with
    trie, freeList := rest, lruSeq := middle.lruSeq + 1
    tlb := middle.tlb.set idx { entry with lruSeq := middle.lruSeq + 1, vaddr := vpn, trieHandle := some handle } }, idx, ?_,
    kept.fill front added rfl rfl _, ⟨by rw [← fewer.lruSeq], ⟨_, ⟨getElem?_set_here place, rfl⟩, rfl⟩, ?_⟩, least⟩
  · unfold TLB.insert TLB.lookup
    rw [missed]
    have read : TLB.entry { middle with freeList := rest } idx = .ok old := entry_ok place
    simp only [ok_bind, pure_bind, TLB.takeFree, made, front, read, inserted]
    rfl
  · rintro other apart entry' ⟨place', used'⟩
    obtain ⟨same, _⟩ | ⟨_, place'⟩ := getElem?_set_cases place'
    · exact absurd same apart
    · exact fewer.used other entry' ⟨place', used'⟩

end

theorem Slots.insert_none (slots : Slots 0 tlb) {vpn : Addr} {entry : TlbEntry}
    (missed : tlb.trie.lookup (buildKey vpn entry.asid) = .ok none) : tlb.insert vpn entry = .error .wild := by
  have empty := eq_nil_of_length_eq_zero slots.length
  have none_ : tlb.freeList = [] := by
    apply eq_nil_iff_forall_not_mem.mpr
    intro idx member
    obtain ⟨_, place, _⟩ := slots.free idx member
    rw [empty] at place
    cases place
  have evict : tlb.evictLRU = .error .wild := by rw [TLB.evictLRU, empty]
  unfold TLB.insert TLB.lookup TLB.takeFree
  simp only [missed, ok_bind, pure_bind, if_true, none_, isEmpty_nil, evict]
  rfl

/-- A TLB with the uses of its slots so far: `last` is the number of the use that a slot had
last. -/
structure Traced where
  tlb : TLB
  uses : Nat := 0
  last : Nat → Nat := fun _ => 0

def Traced.use (traced : Traced) (tlb : TLB) (idx : Nat) : Traced :=
  { tlb, uses := traced.uses + 1, last := update traced.last idx (traced.uses + 1) }

theorem Traced.use_last (traced : Traced) (tlb : TLB) (idx other : Nat) :
    (traced.use tlb idx).last other = if other = idx then traced.uses + 1 else traced.last other :=
  update_apply _ _ _ _

def usedSlot (tlb : TLB) : TlbOp → Except Fault (Option Nat)
  | .lookup vpn asid hidden => if hidden then .ok none else do
    let (_, found) ← tlb.lookup vpn asid false
    return found
  | .insert vpn entry => do
    match ← tlb.trie.lookup (buildKey vpn entry.asid) with
    | some _ => return none
    | none =>
      let (_, idx) ← tlb.insert vpn entry
      return some idx
  | _ => .ok none

def Traced.step (traced : Traced) (op : TlbOp) : Except Fault Traced := do
  let slot ← usedSlot traced.tlb op
  let (tlb, _) ← traced.tlb.step op
  match slot with
  | some idx => return traced.use tlb idx
  | none => return { traced with tlb }

def trace (traced : Traced) (ops : List TlbOp) : Except Fault Traced := ops.foldlM Traced.step traced

theorem Traced.step_tlb (traced : Traced) (op : TlbOp) : (traced.step op).map (·.tlb) = (traced.tlb.step op).map (·.1) := by
  have noted : ∀ (slot : Option Nat) (taken : Except Fault (TLB × List TlbLabel)),
      Except.map (·.tlb) (taken >>= fun result => match slot with
        | some idx => pure (traced.use result.1 idx)
        | none => pure { traced with tlb := result.1 }) = taken.map (·.1) := by
    intro slot taken
    cases taken <;> cases slot <;> rfl
  unfold Traced.step
  cases op with
  | demapPage | flushAll => exact noted none _
  | lookup vpn asid hidden =>
    cases hidden with
    | true => exact noted none _
    | false =>
      cases searched : traced.tlb.lookup vpn asid false with
      | error =>
        simp only [usedSlot, TLB.step, searched]
        rfl
      | ok result =>
        simp only [usedSlot, searched]
        exact noted result.2 _
  | insert vpn entry =>
    cases searched : traced.tlb.trie.lookup (buildKey vpn entry.asid) with
    | error =>
      simp only [usedSlot, TLB.step, TLB.insert, TLB.lookup, searched]
      rfl
    | ok found =>
      cases found with
      | some =>
        simp only [usedSlot, searched]
        exact noted none _
      | none =>
        cases inserted : traced.tlb.insert vpn entry with
        | error =>
          simp only [usedSlot, TLB.step, searched, inserted]
          rfl
        | ok result =>
          simp only [usedSlot, searched, inserted]
          exact noted (some result.2) _

/-- The uses are noted beside the TLB: a traced run is a run of the TLB, so what holds after
every traced run holds after every run. -/
theorem trace_tlb (traced : Traced) (ops : List TlbOp) : (trace traced ops).map (·.tlb) = (run TLB.step traced.tlb ops).map (·.1) := by
  induction ops generalizing traced with
  | nil => rfl
  | cons op ops ih =>
    have step := traced.step_tlb op
    have unfolded : trace traced (op :: ops) = traced.step op >>= fun next => trace next ops := rfl
    rw [unfolded, run]
    cases taken : traced.tlb.step op with
    | error =>
      rw [taken] at step
      cases noted : traced.step op with
      | error =>
        rw [noted] at step
        cases step
        rfl
      | ok => rw [noted] at step; cases step
    | ok result =>
      rw [taken] at step
      cases noted : traced.step op with
      | error => rw [noted] at step; cases step
      | ok next =>
        rw [noted] at step
        have same : next.tlb = result.1 := Except.ok.inj step
        rw [ok_bind, ok_bind, ih next, same]
        cases run TLB.step result.1 ops <;> rfl

/-- The sequence numbers are those of the uses, modulo the width of the counter. -/
structure Stamped (traced : Traced) : Prop where
  lruSeq : traced.tlb.lruSeq = ofNat 64 traced.uses
  stamps : ∀ idx entry, Holds traced.tlb idx entry → entry.lruSeq = ofNat 64 (traced.last idx)
  recent : ∀ idx, traced.last idx ≤ traced.uses
  started : ∀ idx entry, Holds traced.tlb idx entry → traced.last idx ≠ 0
  apart : ∀ idx other, traced.last idx = traced.last other → traced.last idx ≠ 0 → idx = other

theorem new_stamped (size : Nat) : Stamped { tlb := TLB.new size } where
  lruSeq := rfl
  stamps idx entry holds := by
    rw [eq_of_mem_replicate (mem_of_getElem? holds.1)]
    rfl
  recent _ := Nat.le_refl 0
  started idx entry holds := by
    obtain ⟨place, used⟩ := holds
    rw [eq_of_mem_replicate (mem_of_getElem? place)] at used
    cases used
  apart _ _ _ started := absurd rfl started

section
variable {traced : Traced} (stamped : Stamped traced)
include stamped

theorem Stamped.fewer {next : TLB} (fewer : Fewer traced.tlb next) : Stamped { traced with tlb := next } where
  lruSeq := fewer.lruSeq.trans stamped.lruSeq
  stamps idx entry holds := by
    obtain ⟨before, held, same⟩ := fewer.used idx entry holds
    rw [← same]
    exact stamped.stamps idx before held
  recent := stamped.recent
  started idx entry holds := by
    obtain ⟨before, held, _⟩ := fewer.used idx entry holds
    exact stamped.started idx before held
  apart := stamped.apart

theorem Stamped.used {next : TLB} (used : Used traced.tlb next idx) : Stamped (traced.use next idx) := by
  have lruSeq : next.lruSeq = ofNat 64 (traced.uses + 1) := by
    rw [used.lruSeq, stamped.lruSeq]
    exact (ofNat_add traced.uses 1).symm
  refine ⟨lruSeq, ?_, ?_, ?_, ?_⟩
  · intro other entry holds
    rw [Traced.use_last]
    split
    next same =>
      obtain ⟨_, holds', stamp⟩ := used.here
      have equal := holds.1.symm.trans (same ▸ holds'.1)
      rw [Option.some.injEq] at equal
      rw [equal, stamp, lruSeq]
    next apart =>
      obtain ⟨before, held, same⟩ := used.others other apart entry holds
      rw [← same]
      exact stamped.stamps other before held
  · intro other
    rw [Traced.use_last]
    split
    next => exact Nat.le_refl _
    next => exact Nat.le_succ_of_le (stamped.recent other)
  · intro other entry holds
    rw [Traced.use_last]
    split
    next => exact Nat.succ_ne_zero _
    next apart =>
      obtain ⟨before, held, _⟩ := used.others other apart entry holds
      exact stamped.started other before held
  · intro one other equal started
    rw [Traced.use_last] at equal started
    rw [Traced.use_last] at equal
    have old := stamped.recent one
    have old' := stamped.recent other
    split at equal
    next first =>
      split at equal
      next second => rw [first, second]
      next => omega
    next first =>
      rw [if_neg first] at started
      split at equal
      next => omega
      next => exact stamped.apart one other equal started

theorem Stamped.oldest {size : Nat} (slots : Slots size traced.tlb) (unwrapped : traced.uses < 2 ^ 64) (full : traced.tlb.freeList = [])
    (least : Least traced.tlb idx) : ∀ other < size, other ≠ idx → traced.last idx < traced.last other := by
  intro other inside apart
  obtain ⟨entry, place, smallest⟩ := least.least
  obtain ⟨entry', place'⟩ := slots.entry inside
  have holds := slots.full full place
  have order := smallest entry' (mem_of_getElem? place')
  rw [stamped.stamps idx entry holds, stamped.stamps other entry' (slots.full full place'), le_def, toNat_ofNat,
    toNat_ofNat, Nat.mod_eq_of_lt (Nat.lt_of_le_of_lt (stamped.recent idx) unwrapped),
    Nat.mod_eq_of_lt (Nat.lt_of_le_of_lt (stamped.recent other) unwrapped)] at order
  refine Nat.lt_of_le_of_ne order fun same => apart ?_
  exact (stamped.apart idx other same (stamped.started idx entry holds)).symm

end

/-- The simulation stops when an insertion finds another address than its own, and when a page
is put into a TLB of no slots. -/
def Excused (size : Nat) (fault : Fault) : Prop := fault = .assertion "newEntry->vaddr == vpn" ∨ size = 0 ∧ fault = .wild

def Paged : TlbOp → Prop
  | .insert _ entry => entry.logBytes < 64
  | _ => True

instance : DecidablePred Paged
  | .insert _ entry => inferInstanceAs (Decidable (entry.logBytes < 64))
  | .lookup _ _ _ | .demapPage _ _ | .flushAll => inferInstanceAs (Decidable True)

/-- The invariant of a traced run. -/
structure Kept (size : Nat) (traced : Traced) : Prop where
  slots : Slots size traced.tlb
  stamped : Stamped traced

section
variable {size : Nat} {traced : Traced} (kept : Kept size traced)
include kept

theorem Kept.lookup (vpn : Addr) (asid : BitVec 16) (hidden : Bool) :
    Yields (Excused size) (traced.step (.lookup vpn asid hidden)) (Kept size) := by
  obtain ⟨found, searched, here, _⟩ := kept.slots.search (buildKey vpn asid)
  unfold Traced.step usedSlot TLB.step TLB.lookup
  cases found with
  | none =>
    cases hidden <;> simp only [searched, ok_bind, pure_bind, if_true, Bool.false_eq_true, if_false] <;>
      exact ⟨kept.slots, kept.stamped⟩
  | some idx =>
    obtain ⟨entry, holds⟩ := here idx rfl
    have read := entry_ok holds.1
    cases hidden with
    | true =>
      simp only [searched, if_true, ok_bind, pure_bind, read]
      exact ⟨kept.slots, kept.stamped⟩
    | false =>
      have place : (traced.tlb.tlb.set idx { entry with lruSeq := traced.tlb.lruSeq + 1 })[idx]? =
          some { entry with lruSeq := traced.tlb.lruSeq + 1 } := getElem?_set_here holds.1
      have read' : TLB.entry { traced.tlb with
          lruSeq := traced.tlb.lruSeq + 1, tlb := traced.tlb.tlb.set idx { entry with lruSeq := traced.tlb.lruSeq + 1 } } idx =
          .ok { entry with lruSeq := traced.tlb.lruSeq + 1 } := entry_ok place
      simp only [searched, Bool.false_eq_true, if_false, ok_bind, pure_bind, read, read']
      have touched := kept.slots.touch holds.1 (show { entry with lruSeq := traced.tlb.lruSeq + 1 }.trieHandle = _ from rfl)
        (traced.tlb.lruSeq + 1)
      refine ⟨touched, kept.stamped.used ⟨rfl, ⟨_, ⟨place, holds.2⟩, rfl⟩, ?_⟩⟩
      exact fun _ apart => same_of_set apart

theorem Kept.insert {vpn : Addr} {entry : TlbEntry} (paged : entry.logBytes < 64) :
    Yields (Excused size) (traced.step (.insert vpn entry)) (Kept size) := by
  obtain ⟨found, searched, here, _⟩ := kept.slots.search (buildKey vpn entry.asid)
  cases found with
  | some idx =>
    obtain ⟨old, holds⟩ := here idx rfl
    have read := entry_ok holds.1
    unfold Traced.step usedSlot TLB.step TLB.insert TLB.lookup Fault.ensure
    simp only [searched, ok_bind, pure_bind, if_true, read]
    cases mine : old.vaddr == vpn with
    | false => exact .inl rfl
    | true =>
      have touched := kept.slots.touch holds.1 (show { old with pte := entry.pte }.trieHandle = _ from rfl) traced.tlb.lruSeq
      refine ⟨touched, kept.stamped.fewer ⟨rfl, ?_, fun _ _ found => found⟩⟩
      rintro _ entry' ⟨place, used⟩
      obtain ⟨rfl, rfl⟩ | ⟨_, place⟩ := getElem?_set_cases place
      · exact ⟨old, holds, rfl⟩
      · exact ⟨entry', ⟨place, used⟩, rfl⟩
  | none =>
    obtain rfl | positive := Nat.eq_zero_or_pos size
    · have wild := kept.slots.insert_none searched
      unfold Traced.step usedSlot
      simp only [searched, wild, ok_bind, error_bind]
      exact .inr ⟨rfl, rfl⟩
    · obtain ⟨next, idx, inserted, slots, used, _⟩ := kept.slots.insert_new positive paged searched
      have step : traced.step (.insert vpn entry) = .ok (traced.use next idx) := by
        unfold Traced.step usedSlot TLB.step
        simp only [searched, inserted, ok_bind, pure_bind]
        rfl
      rw [step]
      exact ⟨slots, kept.stamped.used used⟩

theorem Kept.step {op : TlbOp} (paged : Paged op) : Yields (Excused size) (traced.step op) (Kept size) := by
  cases op with
  | lookup vpn asid hidden => exact kept.lookup vpn asid hidden
  | insert => exact kept.insert paged
  | demapPage vpn asn =>
    obtain ⟨next, demapped, slots, fewer⟩ := kept.slots.demapPage vpn asn
    unfold Traced.step usedSlot TLB.step
    simp only [demapped, ok_bind, pure_bind]
    exact ⟨slots, kept.stamped.fewer fewer⟩
  | flushAll =>
    obtain ⟨next, flushed, slots, fewer⟩ := kept.slots.flushAll
    unfold Traced.step usedSlot TLB.step
    simp only [flushed, ok_bind, pure_bind]
    exact ⟨slots, kept.stamped.fewer fewer⟩

end

theorem trace_kept {traced : Traced} (kept : Kept size traced) (ops : List TlbOp) (paged : ∀ op ∈ ops, Paged op) :
    Yields (Excused size) (trace traced ops) (Kept size) := by
  induction ops generalizing traced with
  | nil => exact kept
  | cons _ _ ih =>
    obtain ⟨first, rest⟩ := forall_mem_cons.mp paged
    exact (kept.step first).bind fun _ kept => ih kept rest

/-- An insertion with no free slot evicts the slot whose last use is the oldest. -/
def EvictsOldest (size : Nat) (traced : Traced) : Prop :=
  ∀ vpn entry, Paged (.insert vpn entry) → traced.tlb.freeList = [] → traced.tlb.trie.lookup (buildKey vpn entry.asid) = .ok none →
    Yields (fun fault => size = 0 ∧ fault = .wild) (traced.tlb.insert vpn entry) fun inserted =>
      inserted.2 < size ∧ traced.tlb.evictLRU = traced.tlb.remove inserted.2 ∧
        ∀ other < size, other ≠ inserted.2 → traced.last inserted.2 < traced.last other

theorem Kept.evictsOldest {traced : Traced} (kept : Kept size traced) (unwrapped : traced.uses < 2 ^ 64) : EvictsOldest size traced := by
  intro vpn entry paged full missed
  obtain rfl | positive := Nat.eq_zero_or_pos size
  · rw [kept.slots.insert_none missed]
    exact ⟨rfl, rfl⟩
  · obtain ⟨_, _, inserted, _, _, least⟩ := kept.slots.insert_new positive paged missed
    have least := least full
    rw [inserted]
    obtain ⟨_, place, _⟩ := least.least
    refine ⟨?_, least.evicts, kept.stamped.oldest kept.slots unwrapped full least⟩
    rw [← kept.slots.length]
    exact (List.getElem?_eq_some_iff.mp place).1

/-- After every run each slot is free or held, and until the sequence numbers wrap a full TLB
evicts the slot used the longest time ago. Inserting a page that is present is no use of
its slot: it only writes the entry anew. -/
theorem slots_accounted (size : Nat) (ops : List TlbOp) (paged : ∀ op ∈ ops, Paged op) :
    Yields (Excused size) (trace { tlb := TLB.new size } ops) fun traced =>
      Accounted size traced.tlb ∧ (traced.uses < 2 ^ 64 → EvictsOldest size traced) := by
  have kept : Kept size { tlb := TLB.new size } := ⟨new_slots size, new_stamped size⟩
  exact (trace_kept kept ops paged).mono fun traced kept => ⟨kept.slots.accounted, kept.evictsOldest⟩

/-- Two pages are inserted and the first of them again, and yet it is the one to be evicted. -/
example : (trace { tlb := TLB.new 2 } [.insert 0x1000 { logBytes := 12 }, .insert 0x2000 { logBytes := 12 },
    .insert 0x1000 { logBytes := 12, pte := 7 }, .insert 0x3000 { logBytes := 12 }]).toOption.map
      (fun traced => (traced.uses, (traced.tlb.lookup 0x1000 0 true).toOption.map (·.2.isSome))) = some (3, some false) := rfl

/-- Three pages for two slots, with a lookup, an update, a hidden lookup and a demap. -/
def slotHistory : List TlbOp :=
  [.insert 0x1000 { logBytes := 12, asid := 1 }, .insert 0x2000 { logBytes := 12, asid := 1 }, .lookup 0x1000 1 false,
    .insert 0x2000 { logBytes := 12, asid := 1, pte := 7 }, .lookup 0x2000 1 true, .insert 0x3000 { logBytes := 12, asid := 2 },
    .demapPage 0x1000 1, .insert 0x4000 { logBytes := 12, asid := 2 }]

theorem slots_accounted_history : (∀ op ∈ slotHistory, Paged op) ∧ ∃ traced, trace { tlb := TLB.new 2 } slotHistory = .ok traced ∧
    traced.uses = 5 ∧ Accounted 2 traced.tlb ∧ EvictsOldest 2 traced := by
  have paged : ∀ op ∈ slotHistory, Paged op := by decide
  refine ⟨paged, _, rfl, rfl, ?_⟩
  have accounted := slots_accounted 2 slotHistory paged
  exact ⟨accounted.1, accounted.2 (by decide)⟩

/-- A page is put into the TLB, looked up again and again, and another one is put beside it. -/
def useHistory (lookups : Nat) : List TlbOp :=
  .insert 0x1000 { logBytes := 12, asid := 1 } :: (List.replicate lookups (.lookup 0x1000 1 false) ++ [.insert 0x2000 { logBytes := 12, asid := 1 }])

theorem useHistory_paged (lookups : Nat) : ∀ op ∈ useHistory lookups, Paged op := by
  intro op member
  obtain rfl | member := mem_cons.mp member
  · exact (by decide : Paged (.insert 0x1000 { logBytes := 12, asid := 1 }))
  obtain member | member := mem_append.mp member
  · rw [eq_of_mem_replicate member]
    trivial
  · rw [mem_singleton.mp member]
    exact (by decide : Paged (.insert 0x2000 { logBytes := 12, asid := 1 }))

def oneTrie : Trie 64 Nat :=
  match (Trie.empty : Trie 64 Nat).insert (buildKey 0x1000 1) 52 0 with
  | .ok (trie, _) => trie
  | .error _ => Trie.empty

def twoTrie : Trie 64 Nat :=
  match oneTrie.insert (buildKey 0x2000 1) 52 1 with
  | .ok (trie, _) => trie
  | .error _ => Trie.empty

def usedOften (uses : Nat) : Traced where
  tlb :=
    { tlb := [{ logBytes := 12, asid := 1, vaddr := 0x1000, trieHandle := some 1, lruSeq := ofNat 64 uses }, {}]
      trie := oneTrie, freeList := [1], lruSeq := ofNat 64 uses }
  uses
  last := update (fun _ => 0) 0 uses

def usedLast (uses : Nat) : TLB :=
  { tlb := [{ logBytes := 12, asid := 1, vaddr := 0x1000, trieHandle := some 1, lruSeq := ofNat 64 uses },
      { logBytes := 12, asid := 1, vaddr := 0x2000, trieHandle := some 3, lruSeq := ofNat 64 (uses + 1) }]
    trie := twoTrie, freeList := [], lruSeq := ofNat 64 (uses + 1) }

theorem usedOften_start : ({ tlb := TLB.new 2 } : Traced).step (.insert 0x1000 { logBytes := 12, asid := 1 }) = .ok (usedOften 1) := rfl

theorem usedOften_lookup (uses : Nat) : (usedOften uses).step (.lookup 0x1000 1 false) = .ok (usedOften (uses + 1)) := by
  have searched : oneTrie.lookup (buildKey 0x1000 1) = .ok (some 0) := rfl
  have number : ofNat 64 uses + 1 = ofNat 64 (uses + 1) := (ofNat_add uses 1).symm
  have last : update (update (fun _ => 0) 0 uses) 0 (uses + 1) = update (fun _ : Nat => 0) 0 (uses + 1) :=
    update_idem _ _ _
  unfold Traced.step usedSlot TLB.step TLB.lookup
  simp only [searched, ok_bind, pure_bind, Bool.false_eq_true, if_false, Traced.use, TLB.entry, usedOften, getElem?_cons_zero,
    set_cons_zero, number, last]
  rfl

theorem usedOften_lookups (lookups uses : Nat) :
    trace (usedOften uses) (List.replicate lookups (.lookup 0x1000 1 false)) = .ok (usedOften (uses + lookups)) := by
  induction lookups generalizing uses with
  | zero => rfl
  | succ lookups ih =>
    rw [List.replicate_succ, trace, foldlM_cons, usedOften_lookup, ok_bind]
    rw [show uses + (lookups + 1) = uses + 1 + lookups by omega]
    exact ih (uses + 1)

theorem usedOften_insert (uses : Nat) :
    (usedOften uses).step (.insert 0x2000 { logBytes := 12, asid := 1 }) = .ok ((usedOften uses).use (usedLast uses) 1) := by
  have number : ofNat 64 uses + 1 = ofNat 64 (uses + 1) := (ofNat_add uses 1).symm
  unfold usedLast
  rw [← number]
  rfl

theorem useHistory_trace (lookups : Nat) : trace { tlb := TLB.new 2 } (useHistory lookups) =
    .ok ((usedOften (1 + lookups)).use (usedLast (1 + lookups)) 1) := by
  have repeated := usedOften_lookups lookups 1
  rw [trace] at repeated ⊢
  rw [useHistory, foldlM_cons, usedOften_start, ok_bind, foldlM_append, repeated, ok_bind, foldlM_cons, usedOften_insert]
  rfl

theorem slots_accounted_wrapped : ∃ traced, trace { tlb := TLB.new 2 } (useHistory (2 ^ 64 - 2)) = .ok traced ∧
    (∀ op ∈ useHistory (2 ^ 64 - 2), Paged op) ∧ traced.last 0 < traced.last 1 ∧ traced.tlb.freeList = [] ∧
    (traced.tlb.insert 0x3000 { logBytes := 12, asid := 1 }).map (·.2) = .ok 1 ∧ ¬EvictsOldest 2 traced := by
  refine ⟨_, useHistory_trace _, useHistory_paged _, ?_, rfl, ?_, ?_⟩
  · decide
  · rfl
  · intro evicts
    have oldest := evicts 0x3000 { logBytes := 12, asid := 1 } (by decide) rfl rfl
    exact absurd (oldest.2.2 0 (by decide) (by decide)) (by decide)

end ImcGem5.Riscv.Proofs.TlbSlots
