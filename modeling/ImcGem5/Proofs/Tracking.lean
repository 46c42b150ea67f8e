import ImcGem5.Proofs.Falru

/-! The order of the blocks of FALRU under any calls. A block that goes to the tail is, from
the other end of the list, one that comes to the head, so the links need no second
argument; the masks and the boundaries do. -/

namespace ImcGem5.Mem.Proofs.Tracking
open Lib Falru List Heap

section Mirror
variable {heap final : Heap FALRUBlk} {link : FALRUBlk → Option Nat} {list : List Nat} {start : Option Nat}

def mirrorBlk (object : FALRUBlk) : FALRUBlk := { object with prev := object.next, next := object.prev }

def mirror (heap : Heap FALRUBlk) : Heap FALRUBlk := ⟨fun address => (heap.cell address).map mirrorBlk, heap.next⟩

theorem mirror_mirror (heap : Heap FALRUBlk) : mirror (mirror heap) = heap := by
  refine Heap.ext (funext fun address => ?_) rfl
  show ((heap.cell address).map mirrorBlk).map mirrorBlk = heap.cell address
  cases heap.cell address <;> rfl

theorem mirror_field {β : Type} (heap : Heap FALRUBlk) (get : FALRUBlk → β) (address : Nat) :
    (mirror heap).field get address = heap.field (fun object => get (mirrorBlk object)) address := by
  show ((heap.cell address).map mirrorBlk).map get = _
  rw [Option.map_map]
  rfl

theorem mirror_next (heap : Heap FALRUBlk) (address : Nat) :
    (mirror heap).field FALRUBlk.next address = heap.field FALRUBlk.prev address := mirror_field heap FALRUBlk.next address

theorem mirror_prev (heap : Heap FALRUBlk) (address : Nat) :
    (mirror heap).field FALRUBlk.prev address = heap.field FALRUBlk.next address := mirror_field heap FALRUBlk.prev address

theorem mirror_held {address : Nat} (there : ∃ object, heap.cell address = some object) :
    ∃ object, (mirror heap).cell address = some object := by
  obtain ⟨object, held⟩ := there
  exact ⟨mirrorBlk object, congrArg (Option.map mirrorBlk) held⟩

theorem mirror_linked (linked : heap.Linked link list start) (link' : FALRUBlk → Option Nat)
    (same : ∀ object, link' (mirrorBlk object) = link object) : (mirror heap).Linked link' list start := by
  induction list generalizing start with
  | nil => exact linked
  | cons _ _ ih =>
    obtain ⟨here, onward, points, rest⟩ := linked
    refine ⟨here, onward, ?_, ih rest⟩
    rw [mirror_field, funext same]
    exact points

theorem modify_mirror {address : Nat} {assign : FALRUBlk → FALRUBlk}
    (ran : (mirror heap).modify address (fun object => mirrorBlk (assign (mirrorBlk object))) = .ok final) :
    heap.modify address assign = .ok (mirror final) := by
  obtain ⟨object, found, wrote⟩ := of_bind ran
  cases wrote
  have seen := Heap.read_eq_ok.mp found
  obtain ⟨_, here, rfl⟩ := Option.map_eq_some_iff.mp seen
  rw [modify_of_cell here]
  congr 1
  refine Heap.ext (funext fun other => ?_) rfl
  show _ = (((mirror heap).write address _).cell other).map mirrorBlk
  rw [Heap.write_cell, Heap.write_cell]
  split
  · rfl
  · show _ = ((heap.cell other).map mirrorBlk).map mirrorBlk
    cases heap.cell other <;> rfl

end Mirror

section ToTail
variable {params : FALRUParams} {k n : Nat} {cache : FALRU} {before after : List Nat} {blk : Nat}

theorem gone_at {α : Type} (before after : List α) (blk : α) {place : Nat} (inside : place < before.length + after.length) :
    (before ++ (after ++ [blk]))[place]? =
      if place < before.length then (before ++ blk :: after)[place]? else (before ++ blk :: after)[place + 1]? := by
  split
  next early => rw [getElem?_append_left early, getElem?_append_left early]
  next late =>
    rw [getElem?_append_right (Nat.le_of_not_lt late), getElem?_append_left (by omega),
      getElem?_append_right (by omega), show place + 1 - before.length = place - before.length + 1 by omega,
      getElem?_cons_succ]

/-- In the loop of moveBlockToTail the first block behind the moving one that does not fit in
a cache is let into it. -/
def letIn (k n length turns place j : Nat) : Prop :=
  j < n ∧ (place < cap k j ∨ j < turns ∧ length < cap k j ∧ place = cap k j)

theorem with_bit {mask : CachesMask} {i : Nat} (fits : i < 32) (j : Nat) :
    (mask ||| 1#32 <<< i).getLsbD j = true ↔ mask.getLsbD j = true ∨ j = i := by
  rw [BitVec.getLsbD_or, BitVec.getLsbD_shiftLeft, BitVec.getLsbD_one, Bool.or_eq_true]
  apply or_congr_right
  simp only [Bool.and_eq_true, decide_eq_true_iff, Bool.not_eq_true', decide_eq_false_iff_not]
  omega

theorem length_eq (arranged : Arranged k n cache (before ++ blk :: after)) : before.length + after.length + 1 = cap k n := by
  rw [← arranged.length, length_append, length_cons, Nat.add_assoc]

theorem turnToTail {i : Nat} {update : CachesMask} {blks : Heap FALRUBlk} {boundaries : Nat → Option Nat}
    (sized : Sized params k n) (arranged : Arranged k n cache (before ++ blk :: after))
    (inside : i < n) (bits : update.getLsbD i = true ↔ before.length < cap k i)
    (turned : Turned k n cache (before ++ blk :: after) (before ++ (after ++ [blk])) (letIn k n before.length) i blks boundaries) :
    ∃ blks' boundaries', CacheTracking.boundaryToTail update blk (blks, boundaries) i = .ok (blks', boundaries') ∧
      Turned k n cache (before ++ blk :: after) (before ++ (after ++ [blk])) (letIn k n before.length) (i + 1) blks' boundaries' := by
  have fits : i < 32 := Nat.lt_trans inside sized.fits
  have two := two_le_cap sized.several i
  have total := length_eq arranged
  have room : cap k i < cap k n := cap_lt_cap inside
  have boundary : boundaries i = (before ++ blk :: after)[cap k i - 1]? := by
    rw [turned.boundaries i inside, if_neg (Nat.lt_irrefl i)]
  unfold CacheTracking.boundaryToTail
  dsimp only
  rw [one_shift_and fits]
  by_cases shifts : before.length < cap k i
  · -- the block did fit, so the first one that did not comes
    rw [if_pos (bits.mpr shifts)]
    obtain ⟨last, found⟩ : ∃ last, (before ++ blk :: after)[cap k i - 1]? = some last :=
      ⟨_, getElem?_eq_getElem (by simp; omega)⟩
    obtain ⟨first, enters⟩ : ∃ first, (before ++ blk :: after)[cap k i]? = some first :=
      ⟨_, getElem?_eq_getElem (by simp; omega)⟩
    have onward := linked_at arranged.next found
    rw [show cap k i - 1 + 1 = cap k i by omega, enters, ← field_congr (turned.rest last) (fun _ => rfl)] at onward
    obtain ⟨_, held, points⟩ := field_eq_some onward
    obtain ⟨_, own, _⟩ := turned.masks _ _ (blk_at before after blk)
    obtain ⟨_, movedHeld, _⟩ := field_eq_some own
    have apart : some first ≠ some blk := by
      intro same
      have unique := arranged.place_unique (enters.trans same) (blk_at before after blk)
      omega
    obtain ⟨mask, field, masked⟩ := turned.masks _ _ enters
    obtain ⟨_, otherHeld, rfl⟩ := field_eq_some field
    rw [boundary, found]
    simp only [deref, ok_bind, read_of_cell held, read_of_cell movedHeld, points]
    rw [if_neg apart]
    simp only [ok_bind, modify_of_cell otherHeld]
    refine ⟨_, _, rfl, turned.shifts arranged enters otherHeld (fun j => ?_) (fun other j elsewhere => ?_) ?_⟩
    · rw [with_bit fits, masked j]
      by_cases here : j = i
      · subst here
        exact ⟨fun _ => ⟨inside, .inr ⟨Nat.lt_succ_self j, shifts, rfl⟩⟩, fun _ => .inr rfl⟩
      · unfold letIn
        omega
    · have distinct : j = i → other ≠ cap k j := by
        rintro rfl
        exact elsewhere
      unfold letIn
      omega
    · rw [gone_at _ _ _ (by omega), if_neg (by omega), show cap k i - 1 + 1 = cap k i by omega, enters]
  · rw [if_neg (fun set => shifts (bits.mp set))]
    have placed : boundaries i = (before ++ (after ++ [blk]))[cap k i - 1]? := by
      rw [boundary, gone_at _ _ _ (by omega), if_pos (by omega)]
    have stays := turned.stays (fun place j => ?_) placed
    · rw [Function.update_eq_self] at stays
      exact ⟨_, _, rfl, stays⟩
    · have not : j = i → ¬ before.length < cap k j := fun same => same ▸ shifts
      unfold letIn
      omega

theorem moveBlockToTail_ok (sized : Sized params k n) (arranged : Arranged k n cache (before ++ blk :: after)) :
    ∃ blks boundaries, CacheTracking.moveBlockToTail params cache blk = .ok { cache with blks, boundaries } ∧
      (∀ address, blks.field unmasked address = cache.blks.field unmasked address) ∧
      (∀ place address, (before ++ (after ++ [blk]))[place]? = some address →
        ∃ mask, blks.field FALRUBlk.inCachesMask address = some mask ∧ Bits mask fun j => j < n ∧ place < cap k j) ∧
      ∀ j < n, boundaries j = (before ++ (after ++ [blk]))[cap k j - 1]? := by
  obtain ⟨mask, field, masked⟩ := arranged.masks _ _ (blk_at before after blk)
  obtain ⟨object, held, rfl⟩ := field_eq_some field
  have total := length_eq arranged
  have bits : ∀ i < n, (object.inCachesMask.getLsbD i = true ↔ before.length < cap k i) := by
    intro i below
    rw [masked i]
    omega
  obtain ⟨blks, boundaries, ran, turned⟩ := turns (letIn k n before.length) arranged (by simp [letIn])
    (fun i below _ _ => turnToTail sized arranged below (bits i below)) (Nat.le_refl n)
  obtain ⟨_, lastField, _⟩ := turned.masks _ _ (blk_at before after blk)
  obtain ⟨moved, movedHeld, _⟩ := field_eq_some lastField
  refine ⟨blks.write blk { moved with inCachesMask := 0 }, boundaries, ?_, ?_, ?_, ?_⟩
  · unfold CacheTracking.moveBlockToTail
    rw [read_of_cell held, ok_bind, sized.numTrackedCaches]
    dsimp only
    rw [ran, ok_bind]
    rw [modify_of_cell movedHeld]
    rfl
  · intro address
    refine Eq.trans (field_write_of_same movedHeld ?_ address) (turned.rest address)
    rfl
  · intro place address here
    rw [field_write]
    by_cases end' : place < before.length + after.length
    · rw [gone_at _ _ _ end'] at here
      have elsewhere : address ≠ blk := by
        rintro rfl
        have at' : ∃ old, (before ++ address :: after)[old]? = some address ∧ old ≠ before.length := by
          split at here
          · exact ⟨place, here, by omega⟩
          · exact ⟨place + 1, here, by omega⟩
        obtain ⟨old, is, apart⟩ := at'
        exact apart (arranged.place_unique is (blk_at before after address))
      rw [if_neg elsewhere]
      split at here
      all_goals
        obtain ⟨mask, field, masked⟩ := turned.masks _ _ here
        refine ⟨mask, field, fun j => (masked j).trans ?_⟩
        unfold letIn
        omega
    · have inside := (List.getElem?_eq_some_iff.mp here).1
      simp only [length_append, length_singleton] at inside
      have here' : (before ++ (after ++ [blk]))[place]? = some blk := by
        rw [getElem?_append_right (by omega), getElem?_append_right (by omega),
          show place - before.length - after.length = 0 by omega]
        rfl
      rw [here', Option.some.injEq] at here
      rw [if_pos here.symm]
      refine ⟨0, rfl, fun j => ?_⟩
      have zero : (0 : CachesMask).getLsbD j = false := BitVec.getLsbD_zero
      rw [zero]
      constructor
      · nofun
      · rintro ⟨below, _⟩
        have room := cap_lt_cap (k := k) below
        omega
  · intro j below
    rw [turned.boundaries j below, if_pos below]

end ToTail

section MoveToTail
variable {params : FALRUParams} {k n : Nat} {cache : FALRU} {before after order : List Nat} {blk first : Nat}

theorem detach_ok (cache : FALRU) (next : cache.blks.Linked FALRUBlk.next (before ++ blk :: after) (some cache.head))
    (prev : cache.blks.Linked FALRUBlk.prev (before ++ blk :: after).reverse (some cache.tail))
    (nodup : (before ++ blk :: after).Nodup) (starts : after.head? = some first) : ∃ detached,
    (if blk = cache.head then do
        let object ← cache.blks.read blk
        Fault.ensure object.prev.isNone "blk->prev == nullptr"
        let head ← deref object.next
        let blks ← cache.blks.modify head fun other => { other with prev := none }
        return { cache with blks, head }
      else cache.unlink blk) = .ok { cache with blks := mirror detached, head := if before = [] then first else cache.head } ∧
      Detached (mirror cache.blks) detached before.reverse first := by
  have apart := nodup_append.mp nodup
  obtain ⟨rest, rfl⟩ : ∃ rest, after = first :: rest := head?_eq_some_iff.mp starts
  obtain ⟨_, nextField, nextRest⟩ := next.rest
  have onwardIs := nextRest.start
  subst onwardIs
  have backward := prev
  rw [reverse_append, reverse_cons, append_assoc, singleton_append] at backward
  obtain ⟨_, prevField, prevRest⟩ := backward.rest
  have backIs := prevRest.start
  subst backIs
  obtain ⟨object, held, isNext⟩ := field_eq_some nextField
  have isPrev : object.prev = before.reverse.head? := by
    rw [field_of_cell held] at prevField
    exact Option.some.inj prevField
  have there := next.held (show first ∈ before ++ blk :: first :: rest by simp)
  rcases eq_nil_or_concat before with rfl | ⟨front, last, rfl⟩
  · have atHead : blk = cache.head := (Option.some.inj next.start).symm
    obtain ⟨detached, ran, out⟩ := detach_tail (mirror_held there)
    refine ⟨detached, ?_, out⟩
    have ran' : cache.blks.modify first (fun other => { other with prev := none }) = .ok (mirror detached) := modify_mirror ran
    rw [if_pos atHead, read_of_cell held, ok_bind, isNext, isPrev, if_pos rfl]
    simp only [Fault.ensure, reverse_nil, head?_nil, Option.isNone_none, if_true, ok_bind, head?_cons, deref, ran']
    rfl
  · have notHead : blk ≠ cache.head := by
      rintro rfl
      have start := next.start
      cases front with
      | nil | cons =>
        cases start
        simp at nodup
    have behind := next.held (show last ∈ front.concat last ++ blk :: first :: rest by simp)
    have distinct : first ≠ last := by
      rintro rfl
      exact apart.2.2 first (by simp) first (by simp) rfl
    obtain ⟨_, detached, ran, ran', out⟩ := detach_between [] behind there distinct
    refine ⟨mirror detached, ?_, ?_⟩
    · rw [if_neg notHead, if_neg (by simp), FALRU.unlink, read_of_cell held, ok_bind, isNext, isPrev, mirror_mirror]
      simp only [concat_eq_append, reverse_append, reverse_singleton, singleton_append, head?_cons, deref, ok_bind, ran, ran']
      rfl
    · refine ⟨fun other => ?_, fun other => ?_, fun get blind other => ?_⟩
      · rw [mirror_next, mirror_next, out.prev]
        simp [eq_comm]
      · rw [mirror_prev, mirror_prev, out.next]
        simp [eq_comm]
      · rw [mirror_field, mirror_field]
        exact out.rest (fun object => get (mirrorBlk object)) (fun object prev next => blind (mirrorBlk object) next prev) other

/-- A block that was cut out of the list goes behind its tail. -/
theorem attachTail_ok {heap detached : Heap FALRUBlk} {start tail : Nat}
    (next : heap.Linked FALRUBlk.next (before ++ blk :: after) (some start))
    (prev : heap.Linked FALRUBlk.prev (before ++ blk :: after).reverse (some tail)) (once : (before ++ blk :: after).Nodup)
    (starts : after.head? = some first) (ends : after.getLast? = some tail) (out : Detached (mirror heap) detached before.reverse first) :
    ∃ middle final, (mirror detached).modify blk (fun object => { object with prev := some tail, next := none }) = .ok middle ∧
    middle.modify tail (fun object => { object with next := some blk }) = .ok final ∧
    final.Linked FALRUBlk.next (before ++ (after ++ [blk])) (some (if before = [] then first else start)) ∧
    final.Linked FALRUBlk.prev (before ++ (after ++ [blk])).reverse (some blk) ∧
      ∀ {β : Type} (get : FALRUBlk → β), (∀ object, get (mirrorBlk object) = get object) →
        (∀ object prev next, get { object with prev, next } = get object) → ∀ other, final.field get other = heap.field get other := by
  obtain ⟨rest, shape⟩ := getLast?_eq_some_iff.mp ends
  -- the list seen from its tail
  have reversed : after.reverse = tail :: rest.reverse := by rw [shape, reverse_append, reverse_singleton, singleton_append]
  have turned : (before ++ blk :: after).reverse = tail :: rest.reverse ++ blk :: before.reverse := by
    rw [← reversed]
    simp
  have mirrored := mirror_linked prev FALRUBlk.next fun _ => rfl
  have mirrored' := mirror_linked next FALRUBlk.prev fun _ => rfl
  rw [turned] at mirrored
  rw [← reverse_reverse (before ++ blk :: after), turned] at mirrored'
  have last : (tail :: rest.reverse).getLast? = some first := by rw [← reversed, getLast?_reverse, starts]
  obtain ⟨middle, final, goes, back, next', prev', rested⟩ :=
    attach_ok mirrored mirrored' (turned ▸ nodup_reverse.mpr once) last out
  refine ⟨mirror middle, mirror final, modify_mirror ?_, modify_mirror ?_, ?_, ?_, fun get flips blind other => ?_⟩
  · rw [mirror_mirror]
    exact goes
  · rw [mirror_mirror]
    exact back
  · have linked := mirror_linked prev' FALRUBlk.next fun _ => rfl
    rw [← reversed] at linked
    simpa using linked
  · have linked := mirror_linked next' FALRUBlk.prev fun _ => rfl
    rw [← reversed] at linked
    simpa using linked
  · rw [mirror_field, funext flips, rested get blind, mirror_field, funext flips]

theorem moveToTail_ok (sized : Sized params k n) (arranged : Arranged k n cache order) (inside : blk ∈ order) :
    ∃ moved, FALRU.moveToTail params cache blk = .ok moved ∧ Arranged k n moved (order.erase blk ++ [blk]) ∧ Same cache moved := by
  unfold FALRU.moveToTail
  split
  next notTail =>
    obtain ⟨before, after, rfl⟩ := append_of_mem inside
    have apart := nodup_append.mp arranged.nodup
    have outside : blk ∉ before := fun member => apart.2.2 blk member blk mem_cons_self rfl
    have erased : (before ++ blk :: after).erase blk = before ++ after := by
      rw [erase_append_right _ outside, erase_cons_head]
    have ends : after.getLast? = some cache.tail := by
      have ends := arranged.tail_eq
      rw [getLast?_append, getLast?_cons] at ends
      cases last : after.getLast? with
      | none =>
        rw [last] at ends
        exact absurd (Option.some.inj ends) notTail
      | some tail =>
        rw [last] at ends
        exact ends
    obtain ⟨first, starts⟩ : ∃ first, after.head? = some first := by
      cases after with
      | nil => cases ends
      | cons first => exact ⟨first, rfl⟩
    rw [erased, append_assoc]
    obtain ⟨blks, boundaries, tracked, kept, masks, bounds⟩ := moveBlockToTail_ok sized arranged
    have next := arranged.next.frame fun address _ => field_congr (kept address) fun _ => rfl
    have prev := arranged.prev.frame fun address _ => field_congr (kept address) fun _ => rfl
    obtain ⟨_, detaches, out⟩ := detach_ok { cache with blks, boundaries } next prev arranged.nodup starts
    obtain ⟨_, final, goes, back, next', prev', rested⟩ := attachTail_ok next prev arranged.nodup starts ends out
    refine ⟨{ cache with
      blks := final
      boundaries
      head := if before = [] then first else cache.head
      tail := blk }, ?_, ⟨?_, ?_, next', prev', ?_, bounds⟩, ⟨?_, rfl, rfl, rfl, rfl⟩⟩
    · rw [tracked, ok_bind, detaches, ok_bind]
      rw [goes, ok_bind, back]
      rfl
    · have length := arranged.length
      simp at length ⊢
      omega
    · rw [← append_assoc]
      exact (perm_append_singleton _ _).nodup_iff.mpr (nodup_middle.mp arranged.nodup)
    · intro place address here
      obtain ⟨mask, field, masked⟩ := masks place address here
      refine ⟨mask, ?_, masked⟩
      rw [rested FALRUBlk.inCachesMask (fun _ => rfl) fun _ _ _ => rfl]
      exact field
    · intro address
      rw [rested content (fun _ => rfl) fun _ _ _ => rfl]
      exact field_congr (kept address) fun _ => rfl
  next atTail =>
    rw [not_not] at atTail
    subst atTail
    obtain ⟨front, rfl⟩ := getLast?_eq_some_iff.mp arranged.tail_eq
    have outside : cache.tail ∉ front := fun member =>
      (nodup_append.mp arranged.nodup).2.2 _ member cache.tail mem_cons_self rfl
    rw [erase_append_right _ outside, erase_cons_head, append_nil]
    exact ⟨cache, rfl, arranged, fun _ => rfl, rfl, rfl, rfl, rfl⟩

end MoveToTail

/-- The assertions that are up to whoever calls the tags: a block is inserted where none
is, and invalidated once. -/
def callerAsserts : List Fault :=
  [.assertion "num_erased == 1", .assertion "blk->isValid()", .assertion "falruBlk->inCachesMask == 0", .assertion "!blk->isValid()"]

section Ops
variable {params : FALRUParams} {k n : Nat} {cache : FALRU} {order : List Nat} {blk : Nat}

theorem yields_ensure {condition : Bool} {text : String} (asserted : Fault.assertion text ∈ callerAsserts) :
    Yields (· ∈ callerAsserts) (Fault.ensure condition text) fun _ => condition = true := by
  unfold Fault.ensure
  split
  next holds => exact holds
  · exact asserted

/-- The blocks are arranged in some order, and tagHash leads to valid blocks under their
own keys. -/
structure Tracked (k n : Nat) (cache : FALRU) : Prop where
  arranged : ∃ order : List Nat, Arranged k n cache order ∧ order.Perm (List.range (cap k n))
  hashed : ∀ key address, cache.tagHash.lookup key = some address → address < cap k n ∧
    cache.blks.field content address = some (true, key.2, key.1)

theorem Tracked.held (tracked : Tracked k n cache) (inside : blk < cap k n) : ∃ object, cache.blks.cell blk = some object := by
  obtain ⟨_, arranged, perm⟩ := tracked.arranged
  exact arranged.next.held (perm.mem_iff.mpr (mem_range.mpr inside))

theorem Tracked.toHead (sized : Sized params k n) (tracked : Tracked k n cache) (inside : blk < cap k n) :
    ∃ moved, FALRU.moveToHead params cache blk = .ok moved ∧ Tracked k n moved ∧ Same cache moved := by
  obtain ⟨order, arranged, perm⟩ := tracked.arranged
  have member : blk ∈ order := perm.mem_iff.mpr (mem_range.mpr inside)
  obtain ⟨moved, moves, arranged', same⟩ := moveToHead_ok sized arranged member
  refine ⟨moved, moves, ⟨⟨_, arranged', (touch_perm member).symm.trans perm⟩, fun key address found => ?_⟩, same⟩
  rw [same.content]
  exact tracked.hashed key address (same.tagHash ▸ found)

theorem Tracked.toTail (sized : Sized params k n) (tracked : Tracked k n cache) (inside : blk < cap k n) :
    ∃ moved, FALRU.moveToTail params cache blk = .ok moved ∧ Tracked k n moved := by
  obtain ⟨order, arranged, perm⟩ := tracked.arranged
  have member : blk ∈ order := perm.mem_iff.mpr (mem_range.mpr inside)
  obtain ⟨moved, moves, arranged', same⟩ := moveToTail_ok sized arranged member
  have rotated : (order.erase blk ++ [blk]).Perm order :=
    (perm_append_singleton blk _).trans (perm_cons_erase member).symm
  refine ⟨moved, moves, ⟨_, arranged', rotated.trans perm⟩, fun key address found => ?_⟩
  rw [same.content]
  exact tracked.hashed key address (same.tagHash ▸ found)

theorem Tracked.refill (tracked : Tracked k n cache) {object object' : FALRUBlk} (held : cache.blks.cell blk = some object)
    (next : object'.next = object.next) (prev : object'.prev = object.prev) (mask : object'.inCachesMask = object.inCachesMask)
    (tagHash : AList fun _ : Addr × Bool => Nat)
    (hashed : ∀ key address, tagHash.lookup key = some address → cache.tagHash.lookup key = some address ∧ address ≠ blk) :
    Tracked k n { cache with
      blks := cache.blks.write blk object'
      tagHash } := by
  obtain ⟨order, arranged, perm⟩ := tracked.arranged
  refine ⟨⟨order, arranged.refill held next prev mask tagHash, perm⟩, fun key address found => ?_⟩
  obtain ⟨older, apart⟩ := hashed key address found
  rw [field_write, if_neg apart]
  exact tracked.hashed key address older

theorem findBlock_ok (params : FALRUParams) (tracked : Tracked k n cache) (addr : Addr) (isSecure : Bool) :
    ∃ blk, cache.findBlock params addr isSecure = .ok blk ∧ ∀ address, blk = some address → address < cap k n := by
  unfold FALRU.findBlock
  dsimp only
  split
  · exact ⟨none, rfl, nofun⟩
  next address found =>
    obtain ⟨inside, contents⟩ := tracked.hashed _ _ found
    obtain ⟨_, held, is⟩ := field_eq_some contents
    simp only [content, Prod.mk.injEq] at is
    refine ⟨some address, ?_, fun _ same => Option.some.inj same ▸ inside⟩
    simp only [read_of_cell held, ok_bind, is.2.1, is.2.2, Fault.ensure, beq_self_eq_true, Bool.or_true, if_true]
    rfl

section

variable (sized : Sized params k n)
include sized

theorem accessBlock_tracked (tracked : Tracked k n cache) (addr : Addr) (isSecure : Bool) :
    ∃ accessed blk, cache.accessBlock params addr isSecure = .ok (accessed, blk) ∧ Tracked k n accessed := by
  obtain ⟨blk, found, inside⟩ := findBlock_ok params tracked addr isSecure
  have touched : ∃ moved, cache.touch params blk = .ok moved ∧ Tracked k n moved := by
    cases blk with
    | none => exact ⟨cache, rfl, tracked⟩
    | some blk =>
      obtain ⟨object, held⟩ := tracked.held (inside blk rfl)
      obtain ⟨moved, moves, tracked', _⟩ := tracked.toHead sized (inside blk rfl)
      unfold FALRU.touch
      dsimp only
      rw [read_of_cell held, ok_bind]
      split
      · exact ⟨moved, moves, tracked'⟩
      · exact ⟨cache, rfl, tracked⟩
  obtain ⟨moved, moves, tracked'⟩ := touched
  have recorded : ∃ hits misses accesses, CacheTracking.recordAccess params moved blk = .ok { moved with hits, misses, accesses } := by
    cases blk with
    | none => exact ⟨_, _, _, rfl⟩
    | some blk =>
      obtain ⟨object, held⟩ := tracked'.held (inside blk rfl)
      unfold CacheTracking.recordAccess
      dsimp only
      rw [read_of_cell held]
      exact ⟨_, _, _, rfl⟩
  obtain ⟨hits, misses, accesses, records⟩ := recorded
  obtain ⟨⟨order, ⟨length, nodup, next, prev, masks, boundaries⟩, perm⟩, hashed⟩ := tracked'
  refine ⟨{ moved with hits, misses, accesses }, blk, ?_, ⟨order, ⟨length, nodup, next, prev, masks, boundaries⟩, perm⟩, hashed⟩
  rw [FALRU.accessBlock, found, ok_bind, moves, ok_bind, records]
  rfl

theorem insertBlock_tracked (tracked : Tracked k n cache) (addr : Addr) (isSecure : Bool)
    (inside : blk < cap k n) : Yields (· ∈ callerAsserts) (cache.insertBlock params addr isSecure blk) (Tracked k n) := by
  obtain ⟨object, held⟩ := tracked.held inside
  unfold FALRU.insertBlock
  rw [read_of_cell held, ok_bind]
  apply (yields_ensure (by simp [callerAsserts])).bind
  rintro _ -
  apply (yields_ensure (by simp [callerAsserts])).bind
  intro _ invalid
  rw [Bool.not_eq_true'] at invalid
  dsimp only
  rw [modify_of_cell held, ok_bind]
  have filled : Tracked k n { cache with
      blks := cache.blks.write blk { object with
        valid := true
        tag := params.extractTag addr
        secure := object.secure || isSecure } } := by
    refine tracked.refill held ?_ ?_ ?_ cache.tagHash ?_
    · rfl
    · rfl
    · rfl
    intro key address found
    refine ⟨found, ?_⟩
    rintro rfl
    have valid := (tracked.hashed key address found).2
    rw [field_of_cell held] at valid
    have both := congrArg Prod.fst (Option.some.inj valid)
    rw [show (content object).1 = object.valid from rfl, invalid] at both
    cases both
  obtain ⟨_, moves, tracked', same⟩ := filled.toHead sized inside
  have contents := same.content blk
  rw [field_write, if_pos rfl] at contents
  obtain ⟨movedBlk, movedHeld, is⟩ := field_eq_some contents
  simp only [content, Prod.mk.injEq] at is
  rw [moves, ok_bind, read_of_cell movedHeld, ok_bind]
  obtain ⟨⟨order, ⟨length, nodup, next, prev, masks, boundaries⟩, perm⟩, hashed⟩ := tracked'
  refine ⟨⟨order, ⟨length, nodup, next, prev, masks, boundaries⟩, perm⟩, fun key address found => ?_⟩
  by_cases fresh : key = (movedBlk.tag, movedBlk.secure)
  · subst fresh
    rw [AList.lookup_insert] at found
    cases found
    rw [field_of_cell movedHeld, content, is.1]
    exact ⟨inside, rfl⟩
  · rw [AList.lookup_insert_ne fresh] at found
    exact hashed key address found

theorem invalidate_tracked (tracked : Tracked k n cache) (inside : blk < cap k n) :
    Yields (· ∈ callerAsserts) (cache.invalidate params blk) (Tracked k n) := by
  obtain ⟨object, held⟩ := tracked.held inside
  unfold FALRU.invalidate
  rw [read_of_cell held, ok_bind]
  apply (yields_ensure (by simp [callerAsserts])).bind
  rintro _ -
  apply (yields_ensure (by simp [callerAsserts])).bind
  rintro _ -
  rw [modify_of_cell held, ok_bind]
  have emptied : Tracked k n { cache with
      blks := cache.blks.write blk { object with
        valid := false
        secure := false
        tag := BitVec.allOnes 64 }
      tagHash := cache.tagHash.erase (object.tag, object.secure) } := by
    refine tracked.refill held ?_ ?_ ?_ _ ?_
    · rfl
    · rfl
    · rfl
    intro key address found
    by_cases gone : key = (object.tag, object.secure)
    · rw [gone, AList.lookup_erase] at found
      cases found
    rw [AList.lookup_erase_ne gone] at found
    refine ⟨found, ?_⟩
    rintro rfl
    have contents := (tracked.hashed key address found).2
    rw [field_of_cell held] at contents
    simp only [content, Option.some.injEq, Prod.mk.injEq] at contents
    exact gone (Prod.ext contents.2.2.symm contents.2.1.symm)
  obtain ⟨_, moves, tracked'⟩ := emptied.toTail sized inside
  rw [moves]
  exact tracked'

theorem perform_tracked (tracked : Tracked k n cache) (op : FALRU.Op params.numBlocks) :
    Yields (· ∈ callerAsserts) (cache.perform params op) (Tracked k n) := by
  have blocks : params.numBlocks = cap k n := sized.numBlocks
  cases op with
  | accessBlock addr isSecure =>
    obtain ⟨_, blk, ran, tracked'⟩ := accessBlock_tracked sized tracked addr isSecure
    rw [FALRU.perform, ran]
    exact tracked'
  | insertBlock addr isSecure blk => exact insertBlock_tracked sized tracked addr isSecure (blocks ▸ blk.isLt)
  | invalidate blk => exact invalidate_tracked sized tracked (blocks ▸ blk.isLt)

theorem performAll_tracked (tracked : Tracked k n cache) (ops : List (FALRU.Op params.numBlocks)) :
    Yields (· ∈ callerAsserts) (cache.performAll params ops) (Tracked k n) := by
  induction ops generalizing cache with
  | nil => exact tracked
  | cons op _ ih =>
    unfold FALRU.performAll
    rw [foldlM_cons]
    exact (perform_tracked sized tracked op).bind fun _ tracked' => ih tracked'

end

end Ops

def fitting (params : FALRUParams) (i : Nat) : Nat := params.minTrackedSize * 2 ^ i / params.blkSize

/-- What CacheTracking::check asks for, of blocks in this order from head to tail. -/
structure Checked (params : FALRUParams) (cache : FALRU) (order : List Nat) : Prop where
  all : order.Perm (List.range params.numBlocks)
  next : cache.blks.Linked FALRUBlk.next order (some cache.head)
  prev : cache.blks.Linked FALRUBlk.prev order.reverse (some cache.tail)
  boundaries : ∀ i < params.numTrackedCaches, ∃ blk, cache.boundaries i = some blk ∧ order[fitting params i - 1]? = some blk
  masks : ∀ place blk, order[place]? = some blk → ∃ mask, cache.blks.field FALRUBlk.inCachesMask blk = some mask ∧
    ∀ i < params.numTrackedCaches, (mask.getLsbD i = true ↔ place < fitting params i)

section Calls
variable {params : FALRUParams} {b k n : Nat} {cache : FALRU}

theorem fitting_eq (sized : Sized params k n) (i : Nat) : fitting params i = cap k i := by
  rw [fitting, sized.minTrackedSize, Nat.mul_assoc, ← Nat.pow_add, Nat.mul_div_cancel_left _ sized.blkSize]
  rfl

theorem Tracked.checked (sized : Sized params k n) (tracked : Tracked k n cache) : ∃ order, Checked params cache order := by
  obtain ⟨order, arranged, perm⟩ := tracked.arranged
  refine ⟨order, ?_, arranged.next, arranged.prev, fun i below => ?_, fun place blk here => ?_⟩
  · rw [sized.numBlocks]
    exact perm
  · rw [sized.numTrackedCaches] at below
    have room := cap_lt_cap (k := k) below
    have inside : cap k i - 1 < order.length := by
      rw [arranged.length]
      omega
    rw [fitting_eq sized]
    exact ⟨order[cap k i - 1], (arranged.boundaries i below).trans (getElem?_eq_getElem inside), getElem?_eq_getElem inside⟩
  · obtain ⟨mask, field, bits⟩ := arranged.masks place blk here
    refine ⟨mask, field, fun i below => ?_⟩
    rw [sized.numTrackedCaches] at below
    rw [fitting_eq sized, bits i]
    exact ⟨And.right, fun small => ⟨below, small⟩⟩

/-- No call breaks the list or the tracking, in whatever order the calls come. -/
theorem calls_tracked (geometry : Geometry params b k n) (ops : List (FALRU.Op params.numBlocks)) :
    Yields (· ∈ callerAsserts) (FALRU.tagsInit params >>= fun cache => cache.performAll params ops)
      fun final => ∃ order, Checked params final order := by
  have sized := geometry.sized
  obtain ⟨cache, starts, holds, _⟩ := tagsInit_ok sized
  rw [starts, ok_bind]
  have tracked : Tracked k n cache := by
    refine ⟨⟨_, holds.arranged, .refl _⟩, fun key address found => ?_⟩
    obtain ⟨_, _, absent⟩ := (holds.hashed key address).mp found
    cases absent
  exact (performAll_tracked sized tracked ops).mono fun final tracked' => tracked'.checked sized

theorem calls_tracked_fourBlocks :
    (FALRU.tagsInit fourBlocks >>= fun cache => cache.performAll fourBlocks [.insertBlock 0x40 false ⟨2, by decide⟩,
      .accessBlock 0x44 false, .invalidate ⟨2, by decide⟩]).isOk ∧
    Yields (· ∈ callerAsserts) (FALRU.tagsInit fourBlocks >>= fun cache => cache.performAll fourBlocks
      [.insertBlock 0x40 false ⟨2, by decide⟩, .accessBlock 0x44 false, .invalidate ⟨2, by decide⟩])
      fun final => ∃ order, Checked fourBlocks final order :=
  ⟨by decide, calls_tracked fourBlocks_geometry _⟩

end Calls

end ImcGem5.Mem.Proofs.Tracking
