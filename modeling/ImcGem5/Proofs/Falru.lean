import ImcGem5.Lib.Linked
import ImcGem5.Lib.Lru
import ImcGem5.Mem.Falru

/-! What FALRU counts. Its blocks are an LRU list and its masks say which of them a
smaller cache would have, in every state; but an access is recorded when its block is
already at the head, where every cache has it. -/

namespace ImcGem5.Mem.Proofs.Falru
open Lib List CacheTracking FALRU Heap Function

section Lists
variable {list before after : List Nat} {place address blk : Nat} {α : Type}

theorem linked_at {heap : Heap α} {link : α → Option Nat} {start : Option Nat}
    (linked : heap.Linked link list start) (here : list[place]? = some address) :
    heap.field link address = some list[place + 1]? := by
  induction list generalizing start place with
  | nil => simp at here
  | cons _ _ ih =>
    obtain ⟨_, _, points, rest⟩ := linked
    cases place with
    | zero =>
      cases here
      rw [points, rest.start, head?_eq_getElem?]
      simp
    | succ =>
      have later := ih rest (by simpa using here)
      simpa using later

theorem linked_back {heap : Heap α} {link : α → Option Nat} {start : Option Nat}
    (linked : heap.Linked link list.reverse start) (here : list[place + 1]? = some address) :
    heap.field link address = some list[place]? := by
  have inside := (List.getElem?_eq_some_iff.mp here).1
  have mirrored : list.reverse[list.length - 1 - (place + 1)]? = some address := by
    rw [getElem?_reverse (by omega), show list.length - 1 - (list.length - 1 - (place + 1)) = place + 1 by omega]
    exact here
  rw [linked_at linked mirrored, getElem?_reverse (by omega)]
  congr 2
  omega

theorem moved_at (before after : List α) (blk : α) (place : Nat) :
    (blk :: (before ++ after))[place + 1]? =
      if place < before.length then (before ++ blk :: after)[place]? else (before ++ blk :: after)[place + 1]? := by
  rw [getElem?_cons_succ]
  split
  next inside => rw [getElem?_append_left inside, getElem?_append_left inside]
  next outside =>
    rw [getElem?_append_right (by omega), getElem?_append_right (by omega),
      show place + 1 - before.length = place - before.length + 1 by omega, getElem?_cons_succ]

theorem split_at {list : List α} {one : α} (once : list.Nodup) (here : list[place]? = some one) :
    ∃ before after, list = before ++ one :: after ∧ before.length = place ∧ one ∉ before := by
  obtain ⟨inside, is⟩ := List.getElem?_eq_some_iff.mp here
  have shape : list = list.take place ++ one :: list.drop (place + 1) := by
    rw [← is, ← drop_eq_getElem_cons inside, take_append_drop]
  refine ⟨_, _, shape, length_take_of_le (Nat.le_of_lt inside), fun early => ?_⟩
  rw [shape] at once
  exact (nodup_append.mp once).2.2 one early one mem_cons_self rfl

theorem touch_perm [DecidableEq α] {list : List α} {one : α} (inside : one ∈ list) : list.Perm (Lru.touch list one) :=
  perm_cons_erase inside

theorem moved_together {β : Type} [DecidableEq α] [DecidableEq β] {first : List α} {second : List β} {one : α} {other : β}
    (once : first.Nodup) (once' : second.Nodup) (here : first[place]? = some one) (here' : second[place]? = some other) :
    (∀ new : Nat, ∃ old : Nat, (Lru.touch first one)[new]? = first[old]? ∧ (Lru.touch second other)[new]? = second[old]?) ∧
      ∀ old : Nat, ∃ new : Nat, (Lru.touch first one)[new]? = first[old]? ∧ (Lru.touch second other)[new]? = second[old]? := by
  obtain ⟨_, _, rfl, long, free⟩ := split_at once here
  obtain ⟨_, _, rfl, long', free'⟩ := split_at once' here'
  simp only [Lru.touch]
  rw [erase_append_right _ free, erase_cons_head, erase_append_right _ free', erase_cons_head]
  constructor
  · intro new
    cases new with
    | zero => exact ⟨place, by simp [long.symm], by simp [long'.symm]⟩
    | succ new =>
      rw [moved_at, moved_at, long, long']
      by_cases early : new < place
      · exact ⟨new, if_pos early, if_pos early⟩
      · exact ⟨new + 1, if_neg early, if_neg early⟩
  · intro old
    obtain less | rfl | more := Nat.lt_trichotomy old place
    · refine ⟨old + 1, ?_, ?_⟩
      · rw [moved_at, long, if_pos less]
      · rw [moved_at, long', if_pos less]
    · exact ⟨0, by simp [long.symm], by simp [long'.symm]⟩
    · obtain ⟨old, rfl⟩ := Nat.exists_eq_add_one_of_ne_zero (Nat.ne_of_gt (Nat.zero_lt_of_lt more))
      refine ⟨old + 1, ?_, ?_⟩
      · rw [moved_at, long, if_neg (by omega)]
      · rw [moved_at, long', if_neg (by omega)]

end Lists

/-- Each tracked size is twice the one below. -/
structure Sized (params : FALRUParams) (k n : Nat) : Prop where
  numBlocks : params.numBlocks = 2 ^ (k + n)
  numTrackedCaches : params.numTrackedCaches = n
  minTrackedSize : params.minTrackedSize = params.blkSize * 2 ^ k
  blkSize : 0 < params.blkSize
  several : 1 ≤ k
  tracked : 1 ≤ n
  fits : n < 32

def cap (k i : Nat) : Nat := 2 ^ (k + i)

variable {k i : Nat}

theorem two_le_cap (several : 1 ≤ k) (i : Nat) : 2 ≤ cap k i := by
  unfold cap
  exact Nat.le_self_pow (by omega) 2

theorem cap_lt_cap {j : Nat} (lt : i < j) : cap k i < cap k j :=
  Nat.pow_lt_pow_right (by omega) (by omega)

def Bits (mask : CachesMask) (bit : Nat → Prop) : Prop := ∀ j, mask.getLsbD j = true ↔ bit j

def unmasked (object : FALRUBlk) : FALRUBlk := { object with inCachesMask := 0 }

/-- The blocks in LRU order, linked both ways, each with the mask of its place, and the
boundaries at the last block that fits in each tracked cache. -/
structure Arranged (k n : Nat) (cache : FALRU) (order : List Nat) : Prop where
  length : order.length = cap k n
  nodup : order.Nodup
  next : cache.blks.Linked FALRUBlk.next order (some cache.head)
  prev : cache.blks.Linked FALRUBlk.prev order.reverse (some cache.tail)
  masks : ∀ place address, order[place]? = some address → ∃ mask, cache.blks.field FALRUBlk.inCachesMask address = some mask ∧
    Bits mask fun j => j < n ∧ place < cap k j
  boundaries : ∀ j < n, cache.boundaries j = order[cap k j - 1]?

theorem all_bits {params : FALRUParams} {n : Nat} (sized : Sized params k n) : Bits params.inAllCachesMask fun j => j < n := by
  intro j
  have fits := sized.fits
  rw [FALRUParams.inAllCachesMask, sized.numTrackedCaches, BitVec.getLsbD_ofNat, Nat.testBit_two_pow_sub_one]
  simp only [Bool.and_eq_true, decide_eq_true_iff]
  omega

theorem one_shift_and {mask : CachesMask} (fits : i < 32) : (1#32 <<< i &&& mask != 0) = mask.getLsbD i := by
  rw [Bool.eq_iff_iff, bne_iff_ne]
  constructor
  · intro some
    by_contra absent
    apply some
    apply BitVec.eq_of_getLsbD_eq
    intro j inside
    rw [BitVec.getLsbD_and, BitVec.getLsbD_shiftLeft, BitVec.getLsbD_one]
    by_cases same : j = i
    · rw [same, Bool.eq_false_iff.mpr absent]
      simp
    · simp [inside]
      omega
  · intro present nothing
    have bit : (1#32 <<< i &&& mask).getLsbD i = false := by
      rw [nothing]
      simp
    rw [BitVec.getLsbD_and, present, Bool.and_true, BitVec.getLsbD_shiftLeft, BitVec.getLsbD_one] at bit
    simp [fits] at bit

theorem without_bit {mask : CachesMask} (fits : i < 32) (j : Nat) :
    (mask &&& ~~~(1#32 <<< i)).getLsbD j = true ↔ mask.getLsbD j = true ∧ j ≠ i := by
  rw [BitVec.getLsbD_and, BitVec.getLsbD_not, BitVec.getLsbD_shiftLeft, BitVec.getLsbD_one]
  constructor
  · intro both
    simp only [Bool.and_eq_true] at both
    refine ⟨both.1, ?_⟩
    rintro rfl
    simp [fits] at both
  · intro ⟨present, apart⟩
    have inside : j < 32 := by
      by_contra outside
      rw [BitVec.getLsbD_of_ge mask j (by omega)] at present
      cases present
    simp [present, inside]
    omega

section Turns
variable {n i : Nat} {cache : FALRU} {old new : List Nat} {fits : Nat → Nat → Nat → Prop} {blks : Heap FALRUBlk}
  {boundaries : Nat → Option Nat} {pointer : Option Nat} {address : Nat}

theorem Arranged.place_unique {one other : Nat} (arranged : Arranged k n cache old) (here : old[one]? = some address)
    (there : old[other]? = some address) : one = other :=
  (getElem?_inj (List.getElem?_eq_some_iff.mp here).1 arranged.nodup).mp (here.trans there.symm)

/-- So many turns of a loop over the boundaries have been made, in a list that is about to be
`new`. `fits` tells in which caches the block of a place is by then. -/
structure Turned (k n : Nat) (cache : FALRU) (old new : List Nat) (fits : Nat → Nat → Nat → Prop) (turns : Nat)
    (blks : Heap FALRUBlk) (boundaries : Nat → Option Nat) : Prop where
  rest : ∀ address, blks.field unmasked address = cache.blks.field unmasked address
  masks : ∀ place address, old[place]? = some address →
    ∃ mask, blks.field FALRUBlk.inCachesMask address = some mask ∧ Bits mask (fits turns place)
  boundaries : ∀ j < n, boundaries j = if j < turns then new[cap k j - 1]? else old[cap k j - 1]?

theorem Turned.field {β : Type} {get : FALRUBlk → β} (turned : Turned k n cache old new fits i blks boundaries)
    (blind : ∀ object, get (unmasked object) = get object) (address : Nat) : blks.field get address = cache.blks.field get address :=
  field_congr (turned.rest address) blind

theorem set_boundary {late early : Nat → Option Nat} (set : ∀ j < n, boundaries j = if j < i then late j else early j)
    (same : pointer = late i) : ∀ j < n, update boundaries i pointer j = if j < i + 1 then late j else early j := by
  intro j below
  by_cases here : j = i
  · rw [here, update_self, same, if_pos (by omega)]
  · rw [update_of_ne here, set j below]
    exact ite_congr (propext (by omega)) (fun _ => rfl) fun _ => rfl

/-- No block changes caches in this turn. -/
theorem Turned.stays (turned : Turned k n cache old new fits i blks boundaries)
    (same : ∀ place j, fits i place j ↔ fits (i + 1) place j) (points : pointer = new[cap k i - 1]?) :
    Turned k n cache old new fits (i + 1) blks (update boundaries i pointer) := by
  refine ⟨turned.rest, fun place address here => ?_, set_boundary turned.boundaries points⟩
  obtain ⟨mask, field, masked⟩ := turned.masks place address here
  exact ⟨mask, field, fun j => (masked j).trans (same place j)⟩

/-- The block of one place enters or leaves a cache in this turn. -/
theorem Turned.shifts {place blk : Nat} {object : FALRUBlk} {mask : CachesMask} (turned : Turned k n cache old new fits i blks boundaries)
    (arranged : Arranged k n cache old) (there : old[place]? = some blk) (held : blks.cell blk = some object)
    (bits : Bits mask (fits (i + 1) place)) (same : ∀ other j, other ≠ place → (fits i other j ↔ fits (i + 1) other j))
    (points : pointer = new[cap k i - 1]?) : Turned k n cache old new fits (i + 1)
      (blks.write blk { object with inCachesMask := mask }) (update boundaries i pointer) := by
  refine ⟨fun address => ?_, fun other address here => ?_, set_boundary turned.boundaries points⟩
  · refine Eq.trans (field_write_of_same held ?_ address) (turned.rest address)
    rfl
  · rw [field_write]
    split
    next is =>
      rw [is] at here
      rw [arranged.place_unique here there]
      exact ⟨mask, rfl, bits⟩
    next apart =>
      have elsewhere : other ≠ place := by
        rintro rfl
        exact apart (Option.some.inj (here.symm.trans there))
      obtain ⟨mask, field, masked⟩ := turned.masks other address here
      exact ⟨mask, field, fun j => (masked j).trans (same other j elsewhere)⟩

theorem turns (fits : Nat → Nat → Nat → Prop) {turn : Heap FALRUBlk × (Nat → Option Nat) → Nat → Except Fault (Heap FALRUBlk × (Nat → Option Nat))}
    (arranged : Arranged k n cache old) (start : ∀ place j, fits 0 place j ↔ j < n ∧ place < cap k j)
    (step : ∀ i < n, ∀ blks boundaries, Turned k n cache old new fits i blks boundaries → ∃ blks' boundaries',
      turn (blks, boundaries) i = .ok (blks', boundaries') ∧ Turned k n cache old new fits (i + 1) blks' boundaries')
    {count : Nat} (le : count ≤ n) : ∃ blks boundaries, (List.range count).foldlM turn (cache.blks, cache.boundaries) =
      .ok (blks, boundaries) ∧ Turned k n cache old new fits count blks boundaries := by
  induction count with
  | zero =>
    refine ⟨_, _, rfl, fun _ => rfl, fun place _ here => ?_, fun j below => ?_⟩
    · obtain ⟨mask, field, masked⟩ := arranged.masks _ _ here
      exact ⟨mask, field, fun j => (masked j).trans (start place j).symm⟩
    · rw [if_neg (Nat.not_lt_zero j)]
      exact arranged.boundaries j below
  | succ count ih =>
    obtain ⟨blks, boundaries, ran, turned⟩ := ih (by omega)
    obtain ⟨blks', boundaries', turning, turned'⟩ := step count (by omega) blks boundaries turned
    refine ⟨blks', boundaries', ?_, turned'⟩
    rw [range_succ, foldlM_append, ran, ok_bind, foldlM_cons, turning, ok_bind, foldlM_nil]
    rfl

end Turns

section ToHead
variable {params : FALRUParams} {k n : Nat} {cache : FALRU} {before after : List Nat} {blk : Nat}

/-- In the loop of moveBlockToHead the last block before the moving one that fits in a cache
is pushed out of it. -/
def pushedOut (k n length turns place j : Nat) : Prop :=
  j < n ∧ place < cap k j ∧ ¬ (j < turns ∧ cap k j ≤ length ∧ place + 1 = cap k j)

theorem blk_at (before after : List Nat) (blk : Nat) : (before ++ blk :: after)[before.length]? = some blk := by simp

variable {address : Nat}

theorem prev_at (arranged : Arranged k n cache (before ++ blk :: after)) {place : Nat}
    (here : (before ++ blk :: after)[place + 1]? = some address) :
    cache.blks.field FALRUBlk.prev address = some (before ++ blk :: after)[place]? :=
  linked_back arranged.prev here

theorem turnToHead {i : Nat} {update : CachesMask} {blks : Heap FALRUBlk} {boundaries : Nat → Option Nat}
    (sized : Sized params k n) (arranged : Arranged k n cache (before ++ blk :: after)) (moves : before ≠ [])
    (inside : i < n) (bits : update.getLsbD i = true ↔ cap k i ≤ before.length)
    (turned : Turned k n cache (before ++ blk :: after) (blk :: (before ++ after)) (pushedOut k n before.length) i blks boundaries) :
    ∃ blks' boundaries', boundaryToHead update blk (blks, boundaries) i = .ok (blks', boundaries') ∧
      Turned k n cache (before ++ blk :: after) (blk :: (before ++ after)) (pushedOut k n before.length) (i + 1) blks' boundaries' := by
  have fits : i < 32 := Nat.lt_trans inside sized.fits
  have two := two_le_cap sized.several i
  have positive : 0 < before.length := length_pos_iff.mpr moves
  have boundary : boundaries i = (before ++ blk :: after)[cap k i - 1]? := by
    rw [turned.boundaries i inside, if_neg (Nat.lt_irrefl i)]
  unfold boundaryToHead
  dsimp only
  rw [one_shift_and fits]
  by_cases shifts : cap k i ≤ before.length
  · -- the block did not fit, so the last one that did goes
    rw [if_pos (bits.mpr shifts)]
    obtain ⟨last, found⟩ : ∃ last, (before ++ blk :: after)[cap k i - 1]? = some last :=
      ⟨_, getElem?_eq_getElem (by simp; omega)⟩
    obtain ⟨mask, field, masked⟩ := turned.masks _ _ found
    obtain ⟨object, held, rfl⟩ := field_eq_some field
    rw [boundary, found]
    simp only [deref, ok_bind, modify_of_cell held]
    rw [read_of_cell (by rw [write_cell, if_pos rfl])]
    refine ⟨_, _, rfl, turned.shifts arranged found held (fun j => ?_) (fun other j elsewhere => ?_) ?_⟩
    · rw [without_bit fits, masked j]
      by_cases here : j = i
      · subst here
        exact ⟨fun both => absurd rfl both.2, fun not => absurd ⟨Nat.lt_succ_self j, shifts, by omega⟩ not.2.2⟩
      · unfold pushedOut
        omega
    · have apart : j = i → other + 1 ≠ cap k j := by
        rintro rfl
        omega
      unfold pushedOut
      omega
    · have earlier : (before ++ blk :: after)[cap k i - 2 + 1]? = some last := by
        rw [show cap k i - 2 + 1 = cap k i - 1 by omega]
        exact found
      have points := prev_at arranged earlier
      rw [← turned.field (fun _ => rfl), field_of_cell held] at points
      rw [show cap k i - 1 = cap k i - 2 + 1 by omega, moved_at, if_pos (by omega)]
      exact Option.some.inj points
  · rw [if_neg (fun set => shifts (bits.mp set))]
    have same : ∀ place j, pushedOut k n before.length i place j ↔ pushedOut k n before.length (i + 1) place j := by
      intro place j
      have not : j = i → ¬ cap k j ≤ before.length := fun same => same ▸ shifts
      unfold pushedOut
      omega
    rw [boundary]
    split
    next here =>
      -- the boundary is at the block that moves away
      have unique := arranged.place_unique here (blk_at before after blk)
      have earlier : (before ++ blk :: after)[before.length - 1 + 1]? = some blk := by
        rw [show before.length - 1 + 1 = before.length by omega, blk_at]
      have points := prev_at arranged earlier
      rw [← turned.field (fun _ => rfl)] at points
      obtain ⟨object, held, is⟩ := field_eq_some points
      rw [read_of_cell held]
      refine ⟨_, _, rfl, turned.stays same ?_⟩
      rw [is, unique, show before.length = before.length - 1 + 1 by omega, moved_at, if_pos (by omega)]
      congr 1
    next other =>
      have past : cap k i - 1 ≠ before.length := by
        intro same
        rw [same, blk_at] at other
        exact other rfl
      have placed : boundaries i = (blk :: (before ++ after))[cap k i - 1]? := by
        rw [boundary, show cap k i - 1 = cap k i - 2 + 1 by omega, moved_at, if_neg (by omega)]
      have stays := turned.stays same placed
      rw [update_eq_self] at stays
      exact ⟨_, _, rfl, stays⟩

theorem moveBlockToHead_ok (sized : Sized params k n) (arranged : Arranged k n cache (before ++ blk :: after))
    (moves : before ≠ []) : ∃ blks boundaries, moveBlockToHead params cache blk = .ok { cache with blks, boundaries } ∧
      (∀ address, blks.field unmasked address = cache.blks.field unmasked address) ∧
      (∀ place address, (blk :: (before ++ after))[place]? = some address →
        ∃ mask, blks.field FALRUBlk.inCachesMask address = some mask ∧ Bits mask fun j => j < n ∧ place < cap k j) ∧
      ∀ j < n, boundaries j = (blk :: (before ++ after))[cap k j - 1]? := by
  obtain ⟨mask, field, masked⟩ := arranged.masks _ _ (blk_at before after blk)
  obtain ⟨object, held, rfl⟩ := field_eq_some field
  have bits : ∀ i < n, ((params.inAllCachesMask ^^^ object.inCachesMask).getLsbD i = true ↔ cap k i ≤ before.length) := by
    intro i below
    have all := (all_bits sized i).mpr below
    have own := masked i
    rw [BitVec.getLsbD_xor, all, Bool.true_xor, Bool.not_eq_true', ← Bool.not_eq_true, own]
    omega
  obtain ⟨blks, boundaries, ran, turned⟩ := turns (pushedOut k n before.length) arranged (by simp [pushedOut])
    (fun i below _ _ => turnToHead sized arranged moves below (bits i below)) (Nat.le_refl n)
  obtain ⟨_, lastField, _⟩ := turned.masks _ _ (blk_at before after blk)
  obtain ⟨moved, movedHeld, _⟩ := field_eq_some lastField
  refine ⟨blks.write blk { moved with inCachesMask := params.inAllCachesMask }, boundaries, ?_, ?_, ?_, ?_⟩
  · unfold moveBlockToHead
    rw [read_of_cell held, ok_bind, sized.numTrackedCaches]
    dsimp only
    rw [ran, ok_bind]
    rw [modify_of_cell movedHeld]
    rfl
  · intro address
    refine Eq.trans (field_write_of_same movedHeld ?_ address) (turned.rest address)
    rfl
  · intro place address here
    rw [field_write]
    cases place with
    | zero =>
      cases here
      rw [if_pos rfl]
      refine ⟨_, rfl, fun j => (all_bits sized j).trans ?_⟩
      exact ⟨fun below => ⟨below, Nat.lt_of_lt_of_le Nat.zero_lt_two (two_le_cap sized.several j)⟩, And.left⟩
    | succ =>
      have elsewhere : address ≠ blk := by
        rintro rfl
        have nodup := nodup_cons.mp (nodup_middle.mp arranged.nodup)
        exact nodup.1 (mem_of_getElem? (by simpa using here))
      rw [if_neg elsewhere]
      rw [moved_at] at here
      split at here
      all_goals
        obtain ⟨mask, field, masked⟩ := turned.masks _ _ here
        refine ⟨mask, field, fun j => (masked j).trans ?_⟩
        unfold pushedOut
        omega
  · intro j below
    rw [turned.boundaries j below, if_pos below]

end ToHead

theorem modify_ok {heap : Heap FALRUBlk} (there : ∃ object, heap.cell address = some object)
    (assign : FALRUBlk → FALRUBlk) : ∃ next : Heap FALRUBlk, heap.modify address assign = .ok next ∧
      ∀ {β : Type} (get : FALRUBlk → β) other, next.field get other =
        if other = address then heap.field (fun object => get (assign object)) other else heap.field get other := by
  obtain ⟨object, held⟩ := there
  refine ⟨_, modify_of_cell held assign, fun get other => ?_⟩
  rw [field_write]
  split
  next same => rw [same, field_of_cell held]
  · rfl

theorem there_of_field {heap : Heap FALRUBlk} {β : Type} {get : FALRUBlk → β} {value : β}
    (is : heap.field get address = some value) : ∃ object, heap.cell address = some object :=
  ⟨_, (field_eq_some is).choose_spec.1⟩

section Relink
variable {heap final : Heap FALRUBlk} {middle after : List Nat} {blk head last tail : Nat}

/-- The links once a block is at the head. It was between `last`, the end of what stood
before it, and what comes after it. -/
structure Relinked (heap final : Heap FALRUBlk) (after : List Nat) (blk head last : Nat) : Prop where
  nextBlk : final.field FALRUBlk.next blk = some (some head)
  nextLast : final.field FALRUBlk.next last = some after.head?
  nextOther : ∀ other, other ≠ blk → other ≠ last → final.field FALRUBlk.next other = heap.field FALRUBlk.next other
  prevHead : final.field FALRUBlk.prev head = some (some blk)
  prevBlk : final.field FALRUBlk.prev blk = some none
  prevAfter : ∀ other, after.head? = some other → final.field FALRUBlk.prev other = some (some last)
  prevOther : ∀ other, other ≠ head → other ≠ blk → after.head? ≠ some other →
    final.field FALRUBlk.prev other = heap.field FALRUBlk.prev other

theorem Relinked.next (relinked : Relinked heap final after blk head last)
    (linked : heap.Linked FALRUBlk.next (middle ++ last :: blk :: after) (some head)) (nodup : (middle ++ last :: blk :: after).Nodup) :
    final.Linked FALRUBlk.next (blk :: (middle ++ last :: after)) (some blk) := by
  have apart := nodup_append.mp nodup
  have later := nodup_cons.mp apart.2.1
  have last' := nodup_cons.mp later.2
  refine ⟨rfl, _, relinked.nextBlk, linked.splice (fun other member => ?_) relinked.nextLast ?_⟩
  · refine relinked.nextOther other ?_ ?_
    · exact apart.2.2 other member blk (by simp)
    · exact apart.2.2 other member last (by simp)
  · obtain ⟨_, _, leads⟩ := linked.rest
    obtain ⟨_, _, _, rest⟩ := leads
    have start := rest.start
    subst start
    refine rest.frame fun other member => relinked.nextOther other ?_ ?_
    · rintro rfl
      exact last'.1 member
    · rintro rfl
      exact later.1 (mem_cons_of_mem _ member)

theorem Relinked.prev {rest : List Nat} (relinked : Relinked heap final after blk head last)
    (linked : heap.Linked FALRUBlk.prev (head :: rest ++ blk :: after).reverse (some tail))
    (ends : (head :: rest).getLast? = some last) (nodup : (head :: rest ++ blk :: after).Nodup) :
    final.Linked FALRUBlk.prev (blk :: (head :: rest ++ after)).reverse (some (if after = [] then last else tail)) := by
  have apart := nodup_append.mp nodup
  have front := nodup_cons.mp apart.1
  have back := nodup_cons.mp apart.2.1
  -- what stood before the block, seen from its end
  have behind : final.Linked FALRUBlk.prev ((head :: rest).reverse ++ [blk]) (some last) := by
    rw [reverse_append, reverse_cons, append_assoc, singleton_append] at linked
    obtain ⟨onward, _, linked⟩ := linked.rest
    have start : onward = some last := by
      rw [linked.start, ← ends, head?_reverse]
    subst start
    rw [reverse_cons] at linked ⊢
    rw [append_assoc]
    refine linked.splice (fun other member => ?_) relinked.prevHead ?_
    · have inside : other ∈ rest := mem_reverse.mp member
      refine relinked.prevOther other ?_ ?_ ?_
      · rintro rfl
        exact front.1 inside
      · exact apart.2.2 other (mem_cons_of_mem _ inside) blk (by simp)
      · intro first
        exact apart.2.2 other (mem_cons_of_mem _ inside) other (mem_cons_of_mem _ (mem_of_head? first)) rfl
    · exact ⟨rfl, none, relinked.prevBlk, rfl⟩
  cases after with
  | nil => simpa using behind
  | cons first after =>
    rw [if_neg (cons_ne_nil _ _)]
    have shape : (blk :: (head :: rest ++ first :: after)).reverse =
        after.reverse ++ first :: ((head :: rest).reverse ++ [blk]) := by simp
    have shape' : (head :: rest ++ blk :: first :: after).reverse =
        after.reverse ++ first :: (blk :: (head :: rest).reverse) := by simp
    rw [shape]
    rw [shape'] at linked
    refine linked.splice (fun other member => ?_) (relinked.prevAfter first rfl) behind
    have inside : other ∈ after := mem_reverse.mp member
    have firstOnce := nodup_cons.mp back.2
    refine relinked.prevOther other ?_ ?_ ?_
    · rintro rfl
      exact apart.2.2 other mem_cons_self other (by simp [inside]) rfl
    · rintro rfl
      exact back.1 (mem_cons_of_mem _ inside)
    · rintro ⟨⟩
      exact firstOnce.1 inside

end Relink

def content (object : FALRUBlk) : Bool × Bool × Addr := (object.valid, object.secure, object.tag)

structure Same (cache moved : FALRU) : Prop where
  content : ∀ address, moved.blks.field content address = cache.blks.field content address
  tagHash : moved.tagHash = cache.tagHash
  hits : moved.hits = cache.hits
  misses : moved.misses = cache.misses
  accesses : moved.accesses = cache.accesses

section Detach
variable {heap : Heap FALRUBlk} {after : List Nat} {blk last : Nat}

structure Detached (heap detached : Heap FALRUBlk) (after : List Nat) (last : Nat) : Prop where
  next : ∀ other, detached.field FALRUBlk.next other =
    if other = last then some after.head? else heap.field FALRUBlk.next other
  prev : ∀ other, detached.field FALRUBlk.prev other =
    if after.head? = some other then some (some last) else heap.field FALRUBlk.prev other
  rest : ∀ {β : Type} (get : FALRUBlk → β), (∀ object prev next, get { object with prev, next } = get object) →
    ∀ other, detached.field get other = heap.field get other

theorem detach_tail (there : ∃ object, heap.cell last = some object) : ∃ detached,
    (heap.modify last fun other => { other with next := none }) = .ok detached ∧ Detached heap detached [] last := by
  obtain ⟨object, held⟩ := there
  obtain ⟨detached, ran, fields⟩ := modify_ok ⟨object, held⟩ fun other => { other with next := none }
  refine ⟨detached, ran, fun other => ?_, fun other => ?_, fun _ blind other => ?_⟩
  · rw [fields]
    split
    next same => rw [same, field_of_cell held, head?_nil]
    · rfl
  · rw [fields]
    simp
  · rw [fields]
    split
    next same => rw [same, field_of_cell held, field_of_cell held, blind object object.prev none]
    · rfl

theorem detach_between {first : Nat} (after : List Nat) (there : ∃ object, heap.cell last = some object)
    (behind : ∃ object, heap.cell first = some object) (apart : first ≠ last) : ∃ middle detached,
    (heap.modify last fun other => { other with next := some first }) = .ok middle ∧
    (middle.modify first fun other => { other with prev := some last }) = .ok detached ∧
      Detached heap detached (first :: after) last := by
  obtain ⟨object, held⟩ := there
  obtain ⟨object', held'⟩ := behind
  obtain ⟨middle, ran, fields⟩ := modify_ok ⟨object, held⟩ fun other => { other with next := some first }
  have unchanged : middle.field (fun object => object) first = some object' := by
    rw [fields, if_neg apart, field_of_cell held']
  obtain ⟨detached, ran', fields'⟩ := modify_ok (there_of_field unchanged) fun other => { other with prev := some last }
  refine ⟨middle, detached, ran, ran', fun other => ?_, fun other => ?_, fun _ blind other => ?_⟩
  · simp only [fields', fields]
    by_cases here : other = last
    · subst here
      rw [if_neg (Ne.symm apart), if_pos rfl, if_pos rfl, field_of_cell held, head?_cons]
    · rw [if_neg here, if_neg here]
      split <;> rfl
  · simp only [fields', fields, head?_cons, Option.some.injEq]
    by_cases here : other = first
    · subst here
      rw [if_pos rfl, if_pos rfl, if_neg apart, field_of_cell held']
    · rw [if_neg here, if_neg (Ne.symm here)]
      split <;> rfl
  · simp only [fields', fields]
    by_cases here : other = first
    · subst here
      rw [if_pos rfl, if_neg apart, field_of_cell held', field_of_cell held', blind object' (some last) object'.next]
    · rw [if_neg here]
      split
      next same => rw [same, field_of_cell held, field_of_cell held, blind object object.prev (some first)]
      · rfl

theorem Detached.attach {detached : Heap FALRUBlk} {head : Nat} (out : Detached heap detached after last)
    (there : ∃ object, heap.cell blk = some object) (top : ∃ object, heap.cell head = some object) (apart : blk ≠ head)
    (away : blk ≠ last) (front : after.head? ≠ some head) (elsewhere : after.head? ≠ some blk) : ∃ middle final,
    (detached.modify blk fun object => { object with next := some head, prev := none }) = .ok middle ∧
    (middle.modify head fun object => { object with prev := some blk }) = .ok final ∧
      Relinked heap final after blk head last ∧
      ∀ {β : Type} (get : FALRUBlk → β), (∀ object prev next, get { object with prev, next } = get object) →
        ∀ other, final.field get other = heap.field get other := by
  have exists' : ∀ address, (∃ object, heap.cell address = some object) → ∃ object, detached.cell address = some object := by
    rintro address ⟨object, held⟩
    have unit := out.rest (fun _ => ()) (fun _ _ _ => rfl) address
    rw [field_of_cell held] at unit
    exact there_of_field unit
  obtain ⟨object, held⟩ := exists' blk there
  obtain ⟨object', held'⟩ := exists' head top
  obtain ⟨middle, ran, fields⟩ := modify_ok ⟨object, held⟩ fun object => { object with next := some head, prev := none }
  have unchanged : middle.field (fun object => object) head = some object' := by
    rw [fields, if_neg (Ne.symm apart), field_of_cell held']
  obtain ⟨final, ran', fields'⟩ := modify_ok (there_of_field unchanged) fun object => { object with prev := some blk }
  have nextOf : ∀ other, final.field FALRUBlk.next other =
      if other = blk then some (some head) else detached.field FALRUBlk.next other := by
    intro other
    simp only [fields', fields]
    by_cases here : other = blk
    · subst here
      simp only [if_neg apart, if_true, field_of_cell held]
    · simp only [if_neg here]
      split <;> rfl
  have prevOf : ∀ other, final.field FALRUBlk.prev other = if other = head then some (some blk)
      else if other = blk then some none else detached.field FALRUBlk.prev other := by
    intro other
    simp only [fields', fields]
    by_cases here : other = head
    · subst here
      simp only [if_true, if_neg (Ne.symm apart), field_of_cell held']
    · simp only [if_neg here]
      split
      next same => rw [same, field_of_cell held]
      · rfl
  refine ⟨middle, final, ran, ran', ⟨?_, ?_, ?_, ?_, ?_, ?_, ?_⟩, fun get blind other => ?_⟩
  · rw [nextOf, if_pos rfl]
  · rw [nextOf, if_neg (Ne.symm away), out.next, if_pos rfl]
  · intro other notBlk notLast
    rw [nextOf, if_neg notBlk, out.next, if_neg notLast]
  · rw [prevOf, if_pos rfl]
  · rw [prevOf, if_neg apart, if_pos rfl]
  · intro other first
    have notHead : other ≠ head := by
      rintro rfl
      exact front first
    have notBlk : other ≠ blk := by
      rintro rfl
      exact elsewhere first
    rw [prevOf, if_neg notHead, if_neg notBlk, out.prev, if_pos first]
  · intro other notHead notBlk notFirst
    rw [prevOf, if_neg notHead, if_neg notBlk, out.prev, if_neg notFirst]
  · simp only [fields', fields]
    by_cases here : other = head
    · subst here
      rw [if_pos rfl, if_neg (Ne.symm apart), ← out.rest get blind, field_of_cell held', field_of_cell held',
        blind object' (some blk) object'.next]
    · rw [if_neg here, ← out.rest get blind]
      split
      next same => rw [same, field_of_cell held, field_of_cell held, blind object none (some head)]
      · rfl

/-- A block that was cut out of the list goes before its head. -/
theorem attach_ok {detached : Heap FALRUBlk} {head tail : Nat} {rest : List Nat}
    (next : heap.Linked FALRUBlk.next (head :: rest ++ blk :: after) (some head))
    (prev : heap.Linked FALRUBlk.prev (head :: rest ++ blk :: after).reverse (some tail)) (once : (head :: rest ++ blk :: after).Nodup)
    (ends : (head :: rest).getLast? = some last) (out : Detached heap detached after last) : ∃ middle final,
    (detached.modify blk fun object => { object with next := some head, prev := none }) = .ok middle ∧
    (middle.modify head fun object => { object with prev := some blk }) = .ok final ∧
    final.Linked FALRUBlk.next (blk :: (head :: rest ++ after)) (some blk) ∧
    final.Linked FALRUBlk.prev (blk :: (head :: rest ++ after)).reverse (some (if after = [] then last else tail)) ∧
      ∀ {β : Type} (get : FALRUBlk → β), (∀ object prev next, get { object with prev, next } = get object) →
        ∀ other, final.field get other = heap.field get other := by
  have apart := nodup_append.mp once
  have outside : blk ∉ head :: rest := fun member => apart.2.2 blk member blk mem_cons_self rfl
  have firstOutside : ∀ other, after.head? = some other → other ∉ head :: rest ∧ other ≠ blk := by
    intro other first
    have behind : other ∈ after := mem_of_head? first
    refine ⟨fun early => apart.2.2 other early other (mem_cons_of_mem _ behind) rfl, ?_⟩
    rintro rfl
    exact (nodup_cons.mp apart.2.1).1 behind
  obtain ⟨middle, final, goes, back, relinked, rested⟩ := out.attach (next.held (mem_append_right _ mem_cons_self))
    (next.held (mem_append_left _ mem_cons_self)) (fun same => outside (same ▸ mem_cons_self))
    (fun same => outside (same ▸ mem_of_getLast? ends)) (fun first => (firstOutside _ first).1 mem_cons_self)
    (fun first => (firstOutside _ first).2 rfl)
  refine ⟨middle, final, goes, back, ?_, relinked.prev prev ends once, rested⟩
  obtain ⟨front, split⟩ := getLast?_eq_some_iff.mp ends
  have shape : ∀ others, head :: rest ++ others = front ++ last :: others := by
    intro others
    rw [split, append_assoc, singleton_append]
  rw [shape]
  exact relinked.next (shape _ ▸ next) (shape _ ▸ once)

end Detach

section MoveToHead
variable {params : FALRUParams} {k n : Nat} {cache : FALRU} {before after order : List Nat} {blk last : Nat}

theorem detach_ok (cache : FALRU) (next : cache.blks.Linked FALRUBlk.next (before ++ blk :: after) (some cache.head))
    (prev : cache.blks.Linked FALRUBlk.prev (before ++ blk :: after).reverse (some cache.tail))
    (nodup : (before ++ blk :: after).Nodup) (ends : before.getLast? = some last) : ∃ detached,
    (if blk = cache.tail then do
        let object ← cache.blks.read blk
        Fault.ensure object.next.isNone "blk->next == nullptr"
        let tail ← deref object.prev
        let blks ← cache.blks.modify tail fun other => { other with next := none }
        return { cache with blks, tail }
      else cache.unlink blk) = .ok { cache with blks := detached, tail := if after = [] then last else cache.tail } ∧
      Detached cache.blks detached after last := by
  have apart := nodup_append.mp nodup
  obtain ⟨_, nextField, nextRest⟩ := next.rest
  have onwardIs := nextRest.start
  subst onwardIs
  have backward := prev
  rw [reverse_append, reverse_cons, append_assoc, singleton_append] at backward
  obtain ⟨back, prevField, prevRest⟩ := backward.rest
  have backIs : back = some last := by rw [prevRest.start, head?_reverse, ends]
  subst backIs
  obtain ⟨object, held, isNext⟩ := field_eq_some nextField
  have isPrev : object.prev = some last := by
    rw [field_of_cell held] at prevField
    exact Option.some.inj prevField
  have member : last ∈ before := mem_of_getLast? ends
  have there := next.held (mem_append_left _ member)
  cases after with
  | nil =>
    have atTail : blk = cache.tail := by
      have start := prev.start
      rw [head?_reverse, getLast?_append_of_ne_nil _ (cons_ne_nil _ _)] at start
      exact (Option.some.inj start).symm
    obtain ⟨detached, ran, out⟩ := detach_tail there
    refine ⟨detached, ?_, out⟩
    rw [if_pos atTail, read_of_cell held, ok_bind, isNext, isPrev, if_pos rfl]
    simp only [Fault.ensure, head?_nil, Option.isNone_none, if_true, ok_bind, deref, ran]
    rfl
  | cons first after =>
    have notTail : blk ≠ cache.tail := by
      rintro rfl
      have start := prev.start
      rw [head?_reverse, getLast?_append_of_ne_nil _ (cons_ne_nil _ _), getLast?_cons_cons] at start
      exact (nodup_cons.mp apart.2.1).1 (mem_of_getLast? start.symm)
    have behind := next.held (show first ∈ before ++ blk :: first :: after by simp)
    have distinct : first ≠ last := fun same => apart.2.2 last member first (by simp) same.symm
    obtain ⟨_, detached, ran, ran', out⟩ := detach_between after there behind distinct
    refine ⟨detached, ?_, out⟩
    rw [if_neg notTail, if_neg (cons_ne_nil _ _), FALRU.unlink, read_of_cell held, ok_bind, isNext, isPrev]
    simp only [head?_cons, deref, ok_bind, ran, ran']
    rfl

theorem Arranged.head_eq (arranged : Arranged k n cache order) : order.head? = some cache.head := arranged.next.start.symm

theorem Arranged.tail_eq (arranged : Arranged k n cache order) : order.getLast? = some cache.tail := by
  rw [← head?_reverse]
  exact arranged.prev.start.symm

theorem moveToHead_ok (sized : Sized params k n) (arranged : Arranged k n cache order) (inside : blk ∈ order) :
    ∃ moved, moveToHead params cache blk = .ok moved ∧ Arranged k n moved (Lru.touch order blk) ∧ Same cache moved := by
  unfold moveToHead
  split
  next notHead =>
    obtain ⟨before, after, rfl⟩ := append_of_mem inside
    obtain ⟨rest, rfl⟩ : ∃ rest, before = cache.head :: rest := by
      cases before with
      | nil => exact absurd (Option.some.inj arranged.head_eq) notHead
      | cons _ rest =>
        cases arranged.head_eq
        exact ⟨rest, rfl⟩
    have moves : cache.head :: rest ≠ [] := cons_ne_nil _ _
    have apart := nodup_append.mp arranged.nodup
    have outside : blk ∉ cache.head :: rest := fun member => apart.2.2 blk member blk mem_cons_self rfl
    have erased : (cache.head :: rest ++ blk :: after).erase blk = cache.head :: rest ++ after := by
      rw [erase_append_right _ outside, erase_cons_head]
    rw [Lru.touch, erased]
    obtain ⟨blks, boundaries, tracked, kept, masks, bounds⟩ := moveBlockToHead_ok sized arranged moves
    obtain ⟨last, ends⟩ : ∃ last, (cache.head :: rest).getLast? = some last := ⟨_, getLast?_eq_getLast_of_ne_nil moves⟩
    have next := arranged.next.frame fun address _ => field_congr (kept address) fun _ => rfl
    have prev := arranged.prev.frame fun address _ => field_congr (kept address) fun _ => rfl
    obtain ⟨_, detaches, out⟩ := detach_ok { cache with blks, boundaries } next prev arranged.nodup ends
    obtain ⟨_, final, goes, back, next', prev', rested⟩ := attach_ok next prev arranged.nodup ends out
    refine ⟨{ cache with
      blks := final
      boundaries
      head := blk
      tail := if after = [] then last else cache.tail }, ?_, ⟨?_, ?_, next', prev', ?_, bounds⟩, ⟨?_, rfl, rfl, rfl, rfl⟩⟩
    · rw [tracked, ok_bind, detaches, ok_bind]
      rw [goes, ok_bind, back]
      rfl
    · have length := arranged.length
      simp at length ⊢
      omega
    · exact nodup_middle.mp arranged.nodup
    · intro place address here
      obtain ⟨mask, field, masked⟩ := masks place address here
      refine ⟨mask, ?_, masked⟩
      rw [rested FALRUBlk.inCachesMask fun _ _ _ => rfl]
      exact field
    · intro address
      rw [rested content fun _ _ _ => rfl]
      exact field_congr (kept address) fun _ => rfl
  next atHead =>
    rw [not_not] at atHead
    subst atHead
    obtain ⟨rest, rfl⟩ : ∃ rest, order = cache.head :: rest := head?_eq_some_iff.mp arranged.head_eq
    rw [Lru.touch, erase_cons_head]
    exact ⟨cache, rfl, arranged, fun _ => rfl, rfl, rfl, rfl, rfl⟩

end MoveToHead

def holding : Option (Addr × Bool) → Bool × Bool × Addr
  | some key => (true, key.2, key.1)
  | none => (false, false, BitVec.allOnes 64)

/-- The list holds the recent keys in order, and the hash finds them. -/
structure Holds (k n : Nat) (cache : FALRU) (order : List Nat) (keys : List (Addr × Bool)) : Prop where
  arranged : Arranged k n cache order
  distinct : keys.Nodup
  short : keys.length ≤ cap k n
  contents : ∀ (place : Nat) address, order[place]? = some address → cache.blks.field content address = some (holding keys[place]?)
  hashed : ∀ key address, cache.tagHash.lookup key = some address ↔
    ∃ place : Nat, order[place]? = some address ∧ keys[place]? = some key

structure Counted (n : Nat) (hit : Bool) (cache accessed : FALRU) : Prop where
  hits : ∀ i ≤ n, accessed.hits i = cache.hits i + if hit then 1 else 0
  misses : ∀ i ≤ n, accessed.misses i = cache.misses i + if hit then 0 else 1

section Access
variable {params : FALRUParams} {k n : Nat} {cache : FALRU} {order : List Nat} {keys : List (Addr × Bool)} {addr : Addr}
  {isSecure : Bool}

section

variable (holds : Holds k n cache order keys)
include holds

theorem Holds.block {place : Nat} (here : order[place]? = some address) :
    ∃ object, cache.blks.cell address = some object ∧ (object.valid, object.secure, object.tag) = holding keys[place]? :=
  field_eq_some (holds.contents place address here)

theorem findBlock_hit {place : Nat} (is : keys[place]? = some (params.extractTag addr, isSecure)) :
    ∃ blk object, order[place]? = some blk ∧ cache.blks.cell blk = some object ∧ object.valid = true ∧
      cache.findBlock params addr isSecure = .ok (some blk) := by
  have inside := (List.getElem?_eq_some_iff.mp is).1
  have room : place < order.length := by
    rw [holds.arranged.length]
    exact Nat.lt_of_lt_of_le inside holds.short
  have here : order[place]? = some order[place] := getElem?_eq_getElem room
  obtain ⟨object, held, contents⟩ := holds.block here
  rw [is] at contents
  simp only [holding, Prod.mk.injEq] at contents
  obtain ⟨valid, secure, tag⟩ := contents
  have found := (holds.hashed _ _).mpr ⟨place, here, is⟩
  refine ⟨_, object, here, held, valid, ?_⟩
  unfold findBlock
  simp only [found, read_of_cell held, ok_bind, valid, secure, tag, Fault.ensure, beq_self_eq_true, Bool.or_true, if_true]
  rfl

theorem findBlock_miss (absent : (params.extractTag addr, isSecure) ∉ keys) : cache.findBlock params addr isSecure = .ok none := by
  have nothing : cache.tagHash.lookup (params.extractTag addr, isSecure) = none := by
    rw [Option.eq_none_iff_forall_not_mem]
    intro address found
    obtain ⟨_, _, is⟩ := (holds.hashed _ _).mp found
    exact absent (mem_of_getElem? is)
  unfold findBlock
  simp only [nothing]

end

theorem accessBlock_hit (sized : Sized params k n) (holds : Holds k n cache order keys)
    (present : (params.extractTag addr, isSecure) ∈ keys) : ∃ accessed blk,
    cache.accessBlock params addr isSecure = .ok (accessed, some blk) ∧
      Holds k n accessed (Lru.touch order blk) (Lru.touch keys (params.extractTag addr, isSecure)) ∧
      Counted n true cache accessed := by
  obtain ⟨_, is⟩ := mem_iff_getElem?.mp present
  obtain ⟨blk, _, here, held, valid, found⟩ := findBlock_hit holds is
  obtain ⟨moved, moves, arranged, same⟩ := moveToHead_ok sized holds.arranged (mem_of_getElem? here)
  obtain ⟨_, field, bits⟩ := arranged.masks 0 blk rfl
  obtain ⟨movedBlk, movedHeld, rfl⟩ := field_eq_some field
  have movedValid : movedBlk.valid = true := by
    have contents := same.content blk
    rw [field_of_cell movedHeld, field_of_cell held] at contents
    rw [← valid]
    exact congrArg Prod.fst (Option.some.inj contents)
  have everywhere : ∀ i ≤ n, hitIn params (some movedBlk) i = true := by
    intro i le
    unfold hitIn
    rw [sized.numTrackedCaches]
    dsimp only
    split
    next below =>
      rw [one_shift_and (Nat.lt_trans below sized.fits)]
      exact (bits i).mpr ⟨below, Nat.lt_of_lt_of_le Nat.zero_lt_two (two_le_cap sized.several i)⟩
    · exact movedValid
  obtain ⟨forth, back⟩ := moved_together holds.arranged.nodup holds.distinct here is
  refine ⟨{ moved with
    hits := fun i => if i ≤ params.numTrackedCaches ∧ hitIn params (some movedBlk) i then moved.hits i + 1 else moved.hits i
    misses := fun i => if i ≤ params.numTrackedCaches ∧ !hitIn params (some movedBlk) i then moved.misses i + 1
      else moved.misses i
    accesses := moved.accesses + 1 }, blk, ?_, ⟨?_, ?_, ?_, ?_, ?_⟩, ?_, ?_⟩
  · unfold accessBlock
    simp only [found, ok_bind, FALRU.touch, read_of_cell held, valid, if_true, moves, recordAccess, read_of_cell movedHeld]
    rfl
  · exact ⟨arranged.length, arranged.nodup, arranged.next, arranged.prev, arranged.masks, arranged.boundaries⟩
  · exact (touch_perm present).nodup_iff.mp holds.distinct
  · rw [← (touch_perm present).length_eq]
    exact holds.short
  · intro new address now
    obtain ⟨old, isBlk, isKey⟩ := forth new
    rw [isKey]
    refine (same.content address).trans (holds.contents old address ?_)
    rw [← isBlk]
    exact now
  · intro key address
    rw [same.tagHash, holds.hashed]
    constructor
    · intro ⟨old, isBlk, isKey⟩
      obtain ⟨new, sameBlk, sameKey⟩ := back old
      exact ⟨new, sameBlk.trans isBlk, sameKey.trans isKey⟩
    · intro ⟨new, isBlk, isKey⟩
      obtain ⟨old, sameBlk, sameKey⟩ := forth new
      exact ⟨old, sameBlk.symm.trans isBlk, sameKey.symm.trans isKey⟩
  · intro i le
    dsimp only
    rw [everywhere i le, sized.numTrackedCaches, if_pos ⟨le, rfl⟩, same.hits]
    rfl
  · intro i le
    dsimp only
    rw [everywhere i le, if_neg (fun both => nomatch both.2), same.misses]
    rfl

theorem accessBlock_miss (sized : Sized params k n) (holds : Holds k n cache order keys)
    (absent : (params.extractTag addr, isSecure) ∉ keys) : ∃ accessed,
    cache.accessBlock params addr isSecure = .ok (accessed, none) ∧ Holds k n accessed order keys ∧
      Counted n false cache accessed := by
  obtain ⟨arranged, distinct, short, contents, hashed⟩ := holds
  refine ⟨{ cache with
    hits := fun i => if i ≤ params.numTrackedCaches ∧ hitIn params none i then cache.hits i + 1 else cache.hits i
    misses := fun i => if i ≤ params.numTrackedCaches ∧ !hitIn params none i then cache.misses i + 1 else cache.misses i
    accesses := cache.accesses + 1 }, ?_, ⟨?_, distinct, short, contents, hashed⟩, ?_, ?_⟩
  · unfold accessBlock
    simp only [findBlock_miss ⟨arranged, distinct, short, contents, hashed⟩ absent, ok_bind, FALRU.touch, recordAccess]
    rfl
  · exact ⟨arranged.length, arranged.nodup, arranged.next, arranged.prev, arranged.masks, arranged.boundaries⟩
  · intro i _
    exact if_neg (fun both => nomatch both.2)
  · intro i le
    exact if_pos ⟨sized.numTrackedCaches.symm ▸ le, rfl⟩

section

variable (arranged : Arranged k n cache order)
include arranged

theorem Arranged.tail_at : order[cap k n - 1]? = some cache.tail := by
  rw [← arranged.length, ← getLast?_eq_getElem?]
  exact arranged.tail_eq

theorem Arranged.refill {blk : Nat} {object object' : FALRUBlk}
    (held : cache.blks.cell blk = some object) (next : object'.next = object.next) (prev : object'.prev = object.prev)
    (mask : object'.inCachesMask = object.inCachesMask) (tagHash : AList fun _ : Addr × Bool => Nat) :
    Arranged k n { cache with
      blks := cache.blks.write blk object'
      tagHash } order where
  length := arranged.length
  nodup := arranged.nodup
  next := arranged.next.frame fun address _ => field_write_of_same held next address
  prev := arranged.prev.frame fun address _ => field_write_of_same held prev address
  masks := by
    intro place address here
    obtain ⟨value, field, bits⟩ := arranged.masks place address here
    exact ⟨value, (field_write_of_same held mask address).trans field, bits⟩
  boundaries := arranged.boundaries

end

theorem evict_ok (params : FALRUParams) (holds : Holds k n cache order keys) : ∃ evicted, cache.evict params cache.tail = .ok evicted ∧
    Holds k n evicted order (keys.take (cap k n - 1)) ∧ evicted.tail = cache.tail ∧ evicted.hits = cache.hits ∧
      evicted.misses = cache.misses := by
  have atTail := holds.arranged.tail_at
  obtain ⟨object, held, is⟩ := holds.block atTail
  unfold evict
  rw [read_of_cell held, ok_bind]
  cases last : keys[cap k n - 1]? with
  | none =>
    rw [last] at is
    simp only [holding, Prod.mk.injEq] at is
    have short : keys.length ≤ cap k n - 1 := List.getElem?_eq_none_iff.mp last
    rw [is.1, take_of_length_le short]
    exact ⟨cache, rfl, holds, rfl, rfl, rfl⟩
  | some key =>
    rw [last] at is
    simp only [holding, Prod.mk.injEq] at is
    obtain ⟨valid, secure, tag⟩ := is
    have found := (holds.hashed key cache.tail).mpr ⟨_, atTail, last⟩
    refine ⟨{ cache with
      blks := cache.blks.write cache.tail { object with valid := false, secure := false, tag := BitVec.allOnes 64 }
      tagHash := cache.tagHash.erase key }, ?_, ⟨?_, ?_, ?_, ?_, ?_⟩, rfl, rfl, rfl⟩
    · rw [if_pos valid, FALRU.invalidate, read_of_cell held, ok_bind, tag, secure, modify_of_cell held]
      simp only [Prod.eta, found, Option.isSome_some, valid, Fault.ensure, if_true, ok_bind, moveToTail]
      rw [if_neg (fun apart => apart rfl)]
    · apply holds.arranged.refill held <;> rfl
    · exact holds.distinct.sublist (take_sublist _ _)
    · exact Nat.le_trans (length_take_le' _ _) holds.short
    · intro place address here
      rw [field_write]
      split
      next same =>
        subst same
        rw [holds.arranged.place_unique here atTail, getElem?_take, if_neg (Nat.lt_irrefl _)]
        rfl
      next apart =>
        rw [holds.contents place address here]
        have inside := (List.getElem?_eq_some_iff.mp here).1
        rw [holds.arranged.length] at inside
        have early : place ≠ cap k n - 1 := by
          rintro rfl
          exact apart (Option.some.inj (here.symm.trans atTail))
        rw [getElem?_take_of_lt (by omega)]
    · intro other address
      by_cases gone : other = key
      · subst gone
        rw [AList.lookup_erase]
        refine ⟨nofun, fun ⟨place, _, isKey⟩ => ?_⟩
        rw [getElem?_take] at isKey
        split at isKey
        next early =>
          have unique := (getElem?_inj (List.getElem?_eq_some_iff.mp isKey).1 holds.distinct).mp (isKey.trans last.symm)
          omega
        · cases isKey
      · rw [AList.lookup_erase_ne gone, holds.hashed]
        constructor
        · intro ⟨place, isBlk, isKey⟩
          refine ⟨place, isBlk, ?_⟩
          have early : place ≠ cap k n - 1 := by
            rintro rfl
            exact gone (Option.some.inj (isKey.symm.trans last))
          have inside := (List.getElem?_eq_some_iff.mp isKey).1
          have short := holds.short
          rw [getElem?_take_of_lt (by omega)]
          exact isKey
        · intro ⟨place, isBlk, isKey⟩
          refine ⟨place, isBlk, ?_⟩
          rw [getElem?_take] at isKey
          split at isKey
          · exact isKey
          · cases isKey

theorem Arranged.tail_mask (arranged : Arranged k n cache order) : cache.blks.field FALRUBlk.inCachesMask cache.tail = some 0 := by
  obtain ⟨mask, field, bits⟩ := arranged.masks _ _ arranged.tail_at
  rw [field]
  congr 1
  apply BitVec.eq_of_getLsbD_eq
  intro j _
  show mask.getLsbD j = (0#32).getLsbD j
  rw [BitVec.getLsbD_zero, Bool.eq_false_iff]
  intro set
  obtain ⟨below, _⟩ := (bits j).mp set
  have less := cap_lt_cap (k := k) below
  omega

theorem insertBlock_ok (sized : Sized params k n) (holds : Holds k n cache order keys) (room : keys.length ≤ cap k n - 1)
    (absent : (params.extractTag addr, isSecure) ∉ keys) : ∃ inserted,
    cache.insertBlock params addr isSecure cache.tail = .ok inserted ∧
      Holds k n inserted (Lru.touch order cache.tail) ((params.extractTag addr, isSecure) :: keys) ∧
      inserted.hits = cache.hits ∧ inserted.misses = cache.misses := by
  have atTail := holds.arranged.tail_at
  have two := two_le_cap sized.several n
  obtain ⟨object, held, is⟩ := holds.block atTail
  rw [List.getElem?_eq_none_iff.mpr room] at is
  simp only [holding, Prod.mk.injEq] at is
  obtain ⟨invalid, insecure, _⟩ := is
  have unmarked := holds.arranged.tail_mask
  rw [field_of_cell held] at unmarked
  have mask : (object.inCachesMask == 0) = true := by rw [Option.some.inj unmarked, beq_self_eq_true]
  have arranged : Arranged k n { cache with
      blks := cache.blks.write cache.tail { object with valid := true, tag := params.extractTag addr, secure := isSecure } }
      order := by
    apply holds.arranged.refill held <;> rfl
  obtain ⟨moved, moves, arranged', same⟩ := moveToHead_ok sized arranged (mem_of_getElem? atTail)
  have newContent := same.content cache.tail
  rw [field_write, if_pos rfl] at newContent
  obtain ⟨_, movedHeld, movedIs⟩ := field_eq_some newContent
  simp only [content, Prod.mk.injEq] at movedIs
  obtain ⟨_, secure, tag⟩ := movedIs
  -- the blocks before the victim move on by one place
  have behind : ∀ place, place < cap k n - 1 → (Lru.touch order cache.tail)[place + 1]? = order[place]? := by
    intro place early
    obtain ⟨before, _, rfl, _, free⟩ := split_at holds.arranged.nodup atTail
    rw [Lru.touch, erase_append_right _ free, erase_cons_head, moved_at, if_pos (by omega)]
  refine ⟨{ moved with tagHash := moved.tagHash.insert (params.extractTag addr, isSecure) cache.tail }, ?_,
    ⟨?_, ?_, ?_, ?_, ?_⟩, same.hits, same.misses⟩
  · unfold insertBlock
    simp only [read_of_cell held, modify_of_cell held, mask, invalid, insecure, Bool.not_false, Bool.false_or,
      Fault.ensure, if_true, ok_bind, moves, read_of_cell movedHeld, tag, secure]
    rfl
  · exact ⟨arranged'.length, arranged'.nodup, arranged'.next, arranged'.prev, arranged'.masks, arranged'.boundaries⟩
  · exact nodup_cons.mpr ⟨absent, holds.distinct⟩
  · rw [length_cons]
    omega
  · intro place address here
    refine (same.content address).trans ?_
    cases place with
    | zero =>
      cases here
      rw [field_write, if_pos rfl]
      rfl
    | succ place =>
      have inside := (List.getElem?_eq_some_iff.mp here).1
      rw [arranged'.length] at inside
      rw [behind place (by omega)] at here
      have apart : address ≠ cache.tail := by
        rintro rfl
        have unique := arranged.place_unique here atTail
        omega
      rw [field_write, if_neg apart, holds.contents place address here, getElem?_cons_succ]
  · intro key address
    rw [same.tagHash]
    by_cases fresh : key = (params.extractTag addr, isSecure)
    · subst fresh
      rw [AList.lookup_insert]
      constructor
      · rintro ⟨⟩
        exact ⟨0, rfl, rfl⟩
      · intro ⟨place, isBlk, isKey⟩
        cases place with
        | zero => exact isBlk
        | succ =>
          rw [getElem?_cons_succ] at isKey
          exact absurd (mem_of_getElem? isKey) absent
    · rw [AList.lookup_insert_ne fresh, holds.hashed]
      constructor
      · intro ⟨place, isBlk, isKey⟩
        have inside := (List.getElem?_eq_some_iff.mp isKey).1
        exact ⟨place + 1, (behind place (by omega)).trans isBlk, isKey⟩
      · intro ⟨place, isBlk, isKey⟩
        cases place with
        | zero => exact absurd (Option.some.inj isKey).symm fresh
        | succ place =>
          have inside := (List.getElem?_eq_some_iff.mp isKey).1
          rw [length_cons] at inside
          exact ⟨place, (behind place (by omega)).symm.trans isBlk, isKey⟩

theorem access_ok (sized : Sized params k n) (holds : Holds k n cache order keys) (request : Addr × Bool) :
    ∃ accessed order', cache.access params request = .ok accessed ∧
      Holds k n accessed order' (Lru.access (cap k n) keys (params.extractTag request.1, request.2)) ∧
      Counted n (decide ((params.extractTag request.1, request.2) ∈ keys)) cache accessed := by
  unfold FALRU.access Lru.access
  split
  next present =>
    obtain ⟨accessed, _, ran, holds', counted⟩ := accessBlock_hit sized holds present
    rw [ran, ok_bind, decide_eq_true present]
    exact ⟨accessed, _, rfl, holds', counted⟩
  next absent =>
    obtain ⟨_, ran, missedHolds, counted⟩ := accessBlock_miss sized holds absent
    obtain ⟨evicted, evicts, evictedHolds, sameTail, sameHits, sameMisses⟩ := evict_ok params missedHolds
    have room : (keys.take (cap k n - 1)).length ≤ cap k n - 1 := length_take_le _ _
    have still : (params.extractTag request.1, request.2) ∉ keys.take (cap k n - 1) :=
      fun member => absent (mem_of_mem_take member)
    obtain ⟨inserted, inserts, insertedHolds, sameHits', sameMisses'⟩ := insertBlock_ok sized evictedHolds room still
    rw [ran, ok_bind, decide_eq_false absent]
    simp only [FALRU.findVictim, evicts, ok_bind]
    rw [← sameTail]
    refine ⟨inserted, Lru.touch order evicted.tail, inserts, ?_, ?_, ?_⟩
    · have two := two_le_cap sized.several n
      obtain ⟨count, more⟩ : ∃ count, cap k n = count + 1 := ⟨cap k n - 1, by omega⟩
      rw [more, take_succ_cons]
      rw [more] at insertedHolds
      exact insertedHolds
    · rw [sameHits', sameHits]
      exact counted.hits
    · rw [sameMisses', sameMisses]
      exact counted.misses

theorem accessAll_ok (sized : Sized params k n) (holds : Holds k n cache order keys) (requests : List (Addr × Bool)) :
    ∃ final, cache.accessAll params requests = .ok final ∧ ∀ i ≤ n,
      final.hits i = cache.hits i +
        Lru.hits (cap k n) keys (requests.map fun request => (params.extractTag request.1, request.2)) ∧
      final.hits i + final.misses i = cache.hits i + cache.misses i + requests.length := by
  induction requests generalizing cache order keys with
  | nil => exact ⟨cache, rfl, fun i _ => ⟨rfl, rfl⟩⟩
  | cons request _ ih =>
    obtain ⟨_, _, ran, holds', counted⟩ := access_ok sized holds request
    obtain ⟨final, rest, counts⟩ := ih holds'
    refine ⟨final, ?_, fun i le => ?_⟩
    · unfold accessAll
      rw [foldlM_cons, ran, ok_bind]
      exact rest
    · obtain ⟨hits, all⟩ := counts i le
      have here := counted.hits i le
      have there := counted.misses i le
      rw [map_cons, Lru.hits, hits, here, length_cons]
      by_cases present : (params.extractTag request.1, request.2) ∈ keys
      · simp only [present, decide_true, if_true] at there all ⊢
        omega
      · simp only [present, decide_false, if_false, Bool.false_eq_true] at there all ⊢
        omega

end Access

section Init
variable {params : FALRUParams} {k n : Nat} {heap blks : Heap FALRUBlk} {boundaries : Nat → Option Nat} {i j : Nat}
  {mask : CachesMask} {count : Nat}

/-- Masks are set below `i`, boundaries below `j`. -/
structure Marked (k n : Nat) (heap blks : Heap FALRUBlk) (boundaries : Nat → Option Nat) (i j : Nat) (mask : CachesMask) :
    Prop where
  rest : ∀ address, blks.field unmasked address = heap.field unmasked address
  masks : ∀ address < i, ∃ mask, blks.field FALRUBlk.inCachesMask address = some mask ∧ Bits mask fun j => j < n ∧ address < cap k j
  boundaries : ∀ j' < j, boundaries j' = some (cap k j' - 1)
  mask : Bits mask fun j' => j' < n ∧ j ≤ j'
  filled : ∀ j' < j, cap k j' ≤ i
  filling : i < cap k j ∨ i = cap k n ∧ j = n
  tracked : j ≤ n

theorem Marked.bits (marked : Marked k n heap blks boundaries i j mask) (inside : i < cap k n) :
    Bits mask fun j' => j' < n ∧ i < cap k j' := by
  intro j'
  rw [marked.mask j']
  have below : i < cap k j := marked.filling.resolve_right fun last => Nat.ne_of_lt inside last.1
  constructor
  · intro ⟨tracked, le⟩
    obtain less | rfl := Nat.lt_or_eq_of_le le
    · exact ⟨tracked, Nat.lt_trans below (cap_lt_cap less)⟩
    · exact ⟨tracked, below⟩
  · intro ⟨tracked, small⟩
    refine ⟨tracked, ?_⟩
    by_contra early
    have le := marked.filled j' (by omega)
    omega

theorem Marked.next (sized : Sized params k n) (marked : Marked k n heap blks boundaries i j mask) (inside : i < cap k n)
    (blks' : Heap FALRUBlk) (rest : ∀ address, blks'.field unmasked address = blks.field unmasked address)
    (masks : ∀ address, blks'.field FALRUBlk.inCachesMask address =
      if address = i then some mask else blks.field FALRUBlk.inCachesMask address) :
    if i + 1 = cap k j ∧ i ≠ cap k n - 1 then
      Marked k n heap blks' (update boundaries j (some i)) (i + 1) (j + 1) (mask &&& ~~~(1#32 <<< j))
    else Marked k n heap blks' boundaries (i + 1) j mask := by
  have below : i < cap k j := marked.filling.resolve_right fun last => Nat.ne_of_lt inside last.1
  have rest' : ∀ address, blks'.field unmasked address = heap.field unmasked address :=
    fun address => (rest address).trans (marked.rest address)
  have masks' : ∀ address < i + 1, ∃ mask, blks'.field FALRUBlk.inCachesMask address = some mask ∧
      Bits mask fun j => j < n ∧ address < cap k j := by
    intro address le
    rw [masks]
    split
    next same => exact ⟨mask, rfl, same ▸ marked.bits inside⟩
    next apart => exact marked.masks address (by omega)
  split
  next full =>
    have tracked : j < n := by
      apply Nat.lt_of_le_of_ne marked.tracked
      rintro rfl
      omega
    refine ⟨rest', masks', fun j' below => ?_, fun j' => ?_, fun j' below => ?_, ?_, tracked⟩
    · by_cases same : j' = j
      · rw [same, update_self, ← full.1]
        rfl
      · rw [update_of_ne same, marked.boundaries j' (by omega)]
    · rw [without_bit (Nat.lt_trans tracked sized.fits), marked.mask j']
      omega
    · by_cases same : j' = j
      · rw [same, full.1]
      · have le := marked.filled j' (by omega)
        omega
    · rw [full.1]
      exact .inl (cap_lt_cap (Nat.lt_succ_self j))
  next other =>
    refine ⟨rest', masks', marked.boundaries, marked.mask, fun j' below => ?_, ?_, marked.tracked⟩
    · have le := marked.filled j' below
      omega
    · by_cases last : i = cap k n - 1
      · refine .inr ⟨by omega, ?_⟩
        apply Nat.le_antisymm marked.tracked
        by_contra less
        have smaller := cap_lt_cap (k := k) (show j < n by omega)
        omega
      · exact .inl (by omega)

theorem initFrom_ok (sized : Sized params k n)
    (links : ∀ i < cap k n, heap.field FALRUBlk.next i = some (if i = cap k n - 1 then none else some (i + 1)))
    {turns : Nat} (enough : cap k n < i + turns) (inside : i ≤ cap k n) (marked : Marked k n heap blks boundaries i j mask) :
    ∃ blks' boundaries' mask', initFrom params (cap k n - 1) turns blks boundaries
        (if i < cap k n then some i else none) (i * params.blkSize) (params.blkSize * cap k j) mask j = .ok (blks', boundaries') ∧
      Marked k n heap blks' boundaries' (cap k n) n mask' := by
  induction turns generalizing blks boundaries i j mask with
  | zero => omega
  | succ _ ih =>
    by_cases last : i = cap k n
    · have full : j = n := by
        obtain less | same := marked.filling
        · apply Nat.le_antisymm marked.tracked
          by_contra below
          have smaller := cap_lt_cap (k := k) (show j < n by omega)
          omega
        · exact same.2
      subst full
      rw [if_neg (by omega), initFrom]
      exact ⟨blks, boundaries, mask, rfl, last ▸ marked⟩
    · have there : i < cap k n := by omega
      have linked := links i there
      rw [← field_congr (marked.rest i) fun _ => rfl] at linked
      obtain ⟨object, held, next⟩ := field_eq_some linked
      rw [if_pos there, initFrom, modify_of_cell held, ok_bind, read_of_cell (by rw [write_cell, if_pos rfl]), ok_bind]
      have kept : ∀ address, (blks.write i { object with inCachesMask := mask }).field unmasked address =
          blks.field unmasked address := by
        intro address
        apply field_write_of_same held
        rfl
      have step := marked.next sized there _ kept fun address => field_write _ _ _ _ _
      have sizes : i * params.blkSize + params.blkSize = params.blkSize * cap k j ↔ i + 1 = cap k j := by
        rw [← Nat.succ_mul, Nat.succ_eq_add_one, Nat.mul_comm]
        exact Nat.mul_right_inj (Nat.ne_of_gt sized.blkSize)
      have onward : object.next = if i + 1 < cap k n then some (i + 1) else none := by
        rw [next]
        by_cases final : i = cap k n - 1
        · rw [if_pos final, if_neg (by omega)]
        · rw [if_neg final, if_pos (by omega)]
      split at step
      next full =>
        have double : (params.blkSize * cap k j) <<< 1 = params.blkSize * cap k (j + 1) := by
          rw [Nat.shiftLeft_eq, Nat.mul_assoc, cap, cap, ← Nat.pow_add, Nat.add_assoc]
        rw [if_pos ⟨sizes.mpr full.1, full.2⟩, double]
        have rest := ih (by omega) (by omega) step
        rwa [← onward, Nat.succ_mul] at rest
      next other =>
        rw [if_neg fun both => other ⟨sizes.mp both.1, both.2⟩]
        have rest := ih (by omega) (by omega) step
        rwa [← onward, Nat.succ_mul] at rest

def chain (count : Nat) : Heap FALRUBlk :=
  ⟨fun i => if i < count then
    some { prev := if i = 0 then none else some (i - 1), next := if i = count - 1 then none else some (i + 1) } else none, count⟩

theorem chain_next {i : Nat} (inside : i < count) :
    (chain count).field FALRUBlk.next i = some (if i = count - 1 then none else some (i + 1)) := by
  simp [Heap.field, chain, inside]

theorem chain_prev {i : Nat} (inside : i < count) : (chain count).field FALRUBlk.prev i = some (if i = 0 then none else some (i - 1)) := by
  simp [Heap.field, chain, inside]

theorem chain_linked_next {length : Nat} (le : length ≤ count) :
    (chain count).Linked FALRUBlk.next (List.range' (count - length) length) (if length = 0 then none else some (count - length)) := by
  induction length with
  | zero => rfl
  | succ length ih =>
    rw [range'_succ, show count - (length + 1) + 1 = count - length by omega]
    refine ⟨by rw [if_neg (Nat.succ_ne_zero length)], _, chain_next (by omega), ?_⟩
    have rest := ih (by omega)
    by_cases last : length = 0
    · rwa [if_pos (by omega)] at *
    · rw [if_neg last] at rest
      rw [if_neg (by omega), show count - (length + 1) + 1 = count - length by omega]
      exact rest

theorem chain_linked_prev {length : Nat} (le : length ≤ count) :
    (chain count).Linked FALRUBlk.prev (List.range length).reverse (if length = 0 then none else some (length - 1)) := by
  induction length with
  | zero => rfl
  | succ length ih =>
    rw [range_succ, reverse_append, reverse_singleton, singleton_append]
    exact ⟨by rw [if_neg (Nat.succ_ne_zero length)]; rfl, _, chain_prev (by omega), ih (by omega)⟩

theorem range_at {place : Nat} (here : (List.range count)[place]? = some address) : place < count ∧ place = address := by
  obtain ⟨inside, is⟩ := List.getElem?_eq_some_iff.mp here
  rw [length_range] at inside
  rw [getElem_range] at is
  exact ⟨inside, is⟩

theorem tagsInit_ok (sized : Sized params k n) : ∃ cache, tagsInit params = .ok cache ∧
    Holds k n cache (List.range (cap k n)) [] ∧ (∀ i, cache.hits i = 0) ∧ ∀ i, cache.misses i = 0 := by
  have two := two_le_cap sized.several n
  have blocks : params.numBlocks = cap k n := sized.numBlocks
  have start : Marked k n (chain (cap k n)) (chain (cap k n)) (fun _ => none) 0 0 params.inAllCachesMask := by
    refine ⟨fun _ => rfl, by simp, by simp, fun j => (all_bits sized j).trans ?_, by simp, .inl ?_, Nat.zero_le n⟩
    · exact ⟨fun below => ⟨below, Nat.zero_le j⟩, And.left⟩
    · exact Nat.lt_of_lt_of_le Nat.zero_lt_two (two_le_cap sized.several 0)
  obtain ⟨blks, boundaries, _, ran, marked⟩ := initFrom_ok sized (fun i inside => chain_next inside)
    (show cap k n < 0 + (cap k n + 1) by omega) (Nat.zero_le _) start
  refine ⟨{ blks, boundaries, head := 0, tail := cap k n - 1 }, ?_, ⟨⟨?_, ?_, ?_, ?_, ?_, ?_⟩, ?_, ?_, ?_, ?_⟩, fun _ => rfl, fun _ => rfl⟩
  · unfold tagsInit
    dsimp only
    rw [blocks]
    unfold CacheTracking.init
    have some : params.numTrackedCaches ≠ 0 := by
      rw [sized.numTrackedCaches]
      exact Nat.ne_of_gt sized.tracked
    have first : (0 : Nat) < cap k n := by omega
    rw [if_pos first, Nat.zero_mul] at ran
    rw [if_pos some, blocks, sized.minTrackedSize]
    have ran' : initFrom params (cap k n - 1) (cap k n + 1) (chain (cap k n)) (fun _ => none) (Option.some 0) 0
        (params.blkSize * 2 ^ k) params.inAllCachesMask 0 = .ok (blks, boundaries) := ran
    exact bind_eq_ok.mpr ⟨_, ran', rfl⟩
  · exact length_range
  · exact nodup_range
  · have linked := chain_linked_next (Nat.le_refl (cap k n))
    rw [Nat.sub_self, if_neg (by omega), ← range_eq_range'] at linked
    exact linked.frame fun address _ => field_congr (marked.rest address) fun _ => rfl
  · have linked := chain_linked_prev (Nat.le_refl (cap k n))
    rw [if_neg (by omega)] at linked
    exact linked.frame fun address _ => field_congr (marked.rest address) fun _ => rfl
  · intro place address here
    obtain ⟨inside, rfl⟩ := range_at here
    exact marked.masks place inside
  · intro j below
    have less := cap_lt_cap (k := k) below
    rw [getElem?_range (by omega)]
    exact marked.boundaries j below
  · exact nodup_nil
  · exact Nat.zero_le _
  · intro place address here
    obtain ⟨inside, rfl⟩ := range_at here
    refine (field_congr (marked.rest place) fun _ => rfl).trans ?_
    simp [Heap.field, chain, inside, content, holding]
  · intro key address
    exact ⟨by simp, by simp⟩

end Init

section Counters
variable {params : FALRUParams} {b k n : Nat}

structure Geometry (params : FALRUParams) (b k n : Nat) : Prop where
  blkSize : params.blkSize = 2 ^ b
  minTrackedSize : params.minTrackedSize = params.blkSize * 2 ^ k
  size : params.size = params.blkSize * 2 ^ (k + n)
  several : 1 ≤ k
  larger : 1 ≤ n
  fits : params.size < 2 ^ 32

theorem Geometry.sized (geometry : Geometry params b k n) : Sized params k n := by
  obtain ⟨blkSize, minTrackedSize, size, several, larger, fits⟩ := geometry
  have positive : 0 < params.blkSize := by
    rw [blkSize]
    exact Nat.two_pow_pos b
  have sizeExp : params.size = 2 ^ (b + (k + n)) := by rw [size, blkSize, ← Nat.pow_add]
  have minExp : params.minTrackedSize = 2 ^ (b + k) := by rw [minTrackedSize, blkSize, ← Nat.pow_add]
  have exponent : b + (k + n) < 32 := by
    rw [sizeExp] at fits
    exact (Nat.pow_lt_pow_iff_right (by omega)).mp fits
  refine ⟨?_, ?_, minTrackedSize, positive, several, larger, by omega⟩
  · rw [FALRUParams.numBlocks, size, Nat.mul_div_cancel_left _ positive]
  · have more : params.size > params.minTrackedSize := by
      rw [sizeExp, minExp]
      exact Nat.pow_lt_pow_right (by omega) (by omega)
    rw [FALRUParams.numTrackedCaches, if_pos more, sizeExp, minExp, Nat.log2_two_pow, Nat.log2_two_pow]
    omega

def keyOf (params : FALRUParams) (request : Addr × Bool) : Addr × Bool := (params.extractTag request.1, request.2)

theorem run_ok (geometry : Geometry params b k n) (requests : List (Addr × Bool)) : ∃ final,
    (tagsInit params >>= fun cache => cache.accessAll params requests) = .ok final ∧
      ∀ i ≤ n, final.hits i = Lru.hits (cap k n) [] (requests.map (keyOf params)) ∧
        final.hits i + final.misses i = requests.length := by
  obtain ⟨cache, starts, holds, noHits, noMisses⟩ := tagsInit_ok geometry.sized
  obtain ⟨final, ran, counts⟩ := accessAll_ok geometry.sized holds requests
  refine ⟨final, bind_eq_ok.mpr ⟨cache, starts, ran⟩, fun i le => ?_⟩
  obtain ⟨hits, all⟩ := counts i le
  rw [noHits, Nat.zero_add] at hits
  rw [noHits, noMisses, Nat.zero_add] at all
  exact ⟨hits, all⟩

/-- The counters are those of smaller caches exactly if no access finds its block only
because the cache is larger than the smallest one. -/
theorem tracked_hits (geometry : Geometry params b k n) (requests : List (Addr × Bool)) : ∃ final,
    (FALRU.tagsInit params >>= fun cache => cache.accessAll params requests) = .ok final ∧
      ((∀ i ≤ n, final.hits i = Lru.hits (2 ^ (k + i)) [] (requests.map (keyOf params)) ∧
          final.hits i + final.misses i = requests.length) ↔
        Lru.Near (2 ^ k) (2 ^ (k + n)) [] (requests.map (keyOf params))) := by
  obtain ⟨final, ran, counts⟩ := run_ok geometry requests
  refine ⟨final, ran, ?_⟩
  have positive : ∀ i, 0 < cap k i := fun i => Nat.two_pow_pos _
  have ordered : ∀ i j, i ≤ j → cap k i ≤ cap k j := fun i j le => Nat.pow_le_pow_right (by omega) (by omega)
  have same := Lru.hits_eq_iff (positive 0) (ordered 0 n (Nat.zero_le n)) [] (requests.map (keyOf params))
  rw [take_nil, take_nil] at same
  refine Iff.trans ?_ same
  constructor
  · intro tracks
    rw [← (counts 0 (Nat.zero_le n)).1]
    exact (tracks 0 (Nat.zero_le n)).1.symm
  · intro equal i le
    refine ⟨?_, (counts i le).2⟩
    have low := Lru.hits_le (positive 0) (ordered 0 i (Nat.zero_le i)) [] (requests.map (keyOf params))
    have high := Lru.hits_le (positive i) (ordered i n le) [] (requests.map (keyOf params))
    rw [take_nil, take_nil] at low high
    rw [(counts i le).1]
    show _ = Lru.hits (cap k i) [] (requests.map (keyOf params))
    omega

end Counters

def fourBlocks : FALRUParams where
  blkSize := 64
  size := 256
  minTrackedSize := 128

theorem fourBlocks_geometry : Geometry fourBlocks 6 1 1 := by
  constructor <;> decide

theorem fourBlocks_tracked : ∃ final,
    (FALRU.tagsInit fourBlocks >>= fun cache => cache.accessAll fourBlocks [(0x00, false), (0x20, false)]) = .ok final ∧
      final.hits 0 = 1 ∧ final.hits 1 = 1 := by
  obtain ⟨final, ran, tracks⟩ := tracked_hits fourBlocks_geometry [(0x00, false), (0x20, false)]
  have near : Lru.Near 2 4 [] ([(0x00, false), (0x20, false)].map (keyOf fourBlocks)) := by
    apply (Lru.hits_eq_iff _ _ [] _).mp <;> decide
  have counts := tracks.mpr near
  exact ⟨final, ran, (counts 0 (by decide)).1.trans (by decide), (counts 1 (by decide)).1.trans (by decide)⟩

/-- The first block is used again after two others. A cache of two blocks misses it. -/
theorem fourBlocks_overcounts : ¬ ∀ final,
    (FALRU.tagsInit fourBlocks >>= fun cache =>
      cache.accessAll fourBlocks [(0x00, false), (0x40, false), (0x80, false), (0x00, false)]) = .ok final →
      ∀ i ≤ 1, final.hits i = Lru.hits (2 ^ (1 + i)) []
        ([(0x00, false), (0x40, false), (0x80, false), (0x00, false)].map (keyOf fourBlocks)) := by
  intro tracks
  obtain ⟨final, ran, counts⟩ := run_ok fourBlocks_geometry [(0x00, false), (0x40, false), (0x80, false), (0x00, false)]
  have counted := (counts 0 (by decide)).1.symm.trans (tracks final ran 0 (by decide))
  revert counted
  decide

end ImcGem5.Mem.Proofs.Falru
