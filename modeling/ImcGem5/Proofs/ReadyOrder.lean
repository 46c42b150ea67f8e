import ImcGem5.Proofs.MshrQueue

/-! The order of the ready list. Insertion keeps it sorted by the time when the entries are
ready; a delay changes the time and moves nothing. -/

namespace ImcGem5.Mem.Proofs.ReadyOrder
open Lib Proofs.MshrQueue List Function Queue

def Sorted (times : Nat → Tick) (list : List Nat) : Prop := list.Pairwise fun early late => times early ≤ times late

section Sorted
variable {times times' : Nat → Tick} {list before after : List Nat} {index : Nat}

theorem Sorted.congr (sorted : Sorted times list) (same : ∀ other ∈ list, times' other = times other) : Sorted times' list := by
  refine List.Pairwise.imp_of_mem (fun {early late} first second ordered => ?_) sorted
  rw [same early first, same late second]
  exact ordered

theorem Sorted.sublist {shorter : List Nat} (sorted : Sorted times list) (sub : shorter.Sublist list) : Sorted times shorter :=
  List.Pairwise.sublist sub sorted

theorem Sorted.insert (sorted : Sorted times (before ++ after)) (early : ∀ other ∈ before, times other ≤ times index)
    (late : ∀ other ∈ after, times index ≤ times other) : Sorted times (before ++ index :: after) := by
  obtain ⟨first, second, across⟩ := pairwise_append.mp sorted
  refine pairwise_append.mpr ⟨first, pairwise_cons.mpr ⟨late, second⟩, ?_⟩
  intro other inside next member
  obtain rfl | member := mem_cons.mp member
  · exact early other inside
  · exact across other inside next member

theorem Sorted.le_last (sorted : Sorted times list) {last : Nat} (is : list.getLast? = some last) :
    ∀ other ∈ list, times other ≤ times last := by
  obtain ⟨_, rfl⟩ := getLast?_eq_some_iff.mp is
  intro other inside
  obtain inside | inside := mem_append.mp inside
  · exact (pairwise_append.mp sorted).2.2 other inside last mem_cons_self
  · rw [mem_singleton.mp inside]

theorem sorted_update_iff (sorted : Sorted times (before ++ index :: after)) (nodup : (before ++ index :: after).Nodup) {time : Tick}
    (later : times index ≤ time) :
    Sorted (Function.update times index time) (before ++ index :: after) ↔ ∀ other ∈ after, time ≤ times other := by
  obtain ⟨_, rest, apart⟩ := nodup_append.mp nodup
  have notBehind : ∀ other ∈ after, other ≠ index := fun other inside same => (nodup_cons.mp rest).1 (same ▸ inside)
  have notBefore : ∀ other ∈ before, other ≠ index := fun other inside => apart other inside index mem_cons_self
  constructor
  · intro kept other inside
    have ordered := (pairwise_cons.mp (pairwise_append.mp kept).2.1).1 other inside
    rwa [update_self, update_of_ne (notBehind other inside)] at ordered
  · intro behind
    have others : Sorted times (before ++ after) := sorted.sublist ((sublist_cons_self index after).append_left before)
    refine Sorted.insert (others.congr fun other inside => ?_) ?_ ?_
    · obtain inside | inside := mem_append.mp inside
      · exact update_of_ne (notBefore other inside) _ _
      · exact update_of_ne (notBehind other inside) _ _
    · intro other inside
      rw [update_self, update_of_ne (notBefore other inside)]
      exact Nat.le_trans ((pairwise_append.mp sorted).2.2 other inside index mem_cons_self) later
    · intro other inside
      rw [update_self, update_of_ne (notBehind other inside)]
      exact behind other inside

end Sorted

/-! The times of the entries -/

section Times
variable (queue : MSHRQueue) (index : Nat)

theorem readyTime_setEntry (mshr : MSHR) :
    (queue.setEntry index mshr).readyTime = Function.update queue.readyTime index mshr.readyTime := by
  funext other
  by_cases same : other = index
  · subst same
    simp [Queue.readyTime, Queue.entry, setEntry, QueueEntry.readyTime]
  · simp [Queue.readyTime, Queue.entry, setEntry, same]

theorem readyTime_setReadyIter (iterator : Nat) : (queue.setReadyIter index iterator).readyTime = queue.readyTime := by
  funext other
  by_cases same : other = index
  · subst same
    simp [Queue.readyTime, Queue.entry, setReadyIter]
  · simp [Queue.readyTime, Queue.entry, setReadyIter, same]

theorem readyTime_setAllocIter (iterator : Nat) : (queue.setAllocIter index iterator).readyTime = queue.readyTime := by
  funext other
  by_cases same : other = index
  · subst same
    simp [Queue.readyTime, Queue.entry, setAllocIter]
  · simp [Queue.readyTime, Queue.entry, setAllocIter, same]

end Times

def Ordered (queue : MSHRQueue) : Prop := Sorted queue.readyTime queue.readyList.values

section Operations
variable {queue after : MSHRQueue} {index : Nat}

theorem addToReadyList_sorted (ordered : Ordered queue) {list : NodeList Nat} {iterator : Nat}
    (added : queue.addToReadyList index = .ok (list, iterator)) : Sorted queue.readyTime list.values := by
  have atEnd (early : ∀ other ∈ queue.readyList.values, queue.readyTime other ≤ queue.readyTime index) :
      Sorted queue.readyTime (queue.readyList.insert none index).1.values := by
    rw [NodeList.values_insert_end]
    refine Sorted.insert ?_ early (fun _ inside => absurd inside not_mem_nil)
    rw [append_nil]
    exact ordered
  have backOf : queue.readyList.values.getLast? = queue.readyList.nodes.getLast?.map Prod.snd := getLast?_map
  unfold addToReadyList at added
  cases last : queue.readyList.nodes.getLast? with
  | none =>
    rw [last] at added
    cases added
    refine atEnd fun other inside => ?_
    rw [NodeList.values, getLast?_eq_none_iff.mp last] at inside
    cases inside
  | some back =>
    rw [last] at added backOf
    by_cases later : queue.readyTime back.2 ≤ queue.readyTime index
    · simp only [later, decide_true, if_true] at added
      cases added
      exact atEnd fun other inside => Nat.le_trans (ordered.le_last backOf other inside) later
    · simp only [later, decide_false, Bool.false_eq_true, if_false] at added
      cases found : queue.readyList.nodes.find? fun node => decide (queue.readyTime index < queue.readyTime node.2) with
      | none =>
        rw [found] at added
        cases added
      | some node =>
        rw [found] at added
        cases added
        obtain ⟨past, before, rest, split, skipped⟩ := find?_eq_some_iff_append.mp found
        have past := of_decide_eq_true past
        have values : queue.readyList.values = before.map Prod.snd ++ node.2 :: rest.map Prod.snd := by
          rw [NodeList.values, split, map_append, map_cons]
        have placed := NodeList.values_insert_before split index
        change Sorted _ (queue.readyList.insert (some node.1) index).1.values
        rw [placed]
        have whole : Sorted queue.readyTime (before.map Prod.snd ++ node.2 :: rest.map Prod.snd) := values ▸ ordered
        refine Sorted.insert whole ?_ ?_
        · intro other inside
          obtain ⟨earlier, member, rfl⟩ := mem_map.mp inside
          have early := skipped earlier member
          rw [Bool.not_eq_true', decide_eq_false_iff_not] at early
          exact Nat.le_of_not_lt early
        · intro other inside
          obtain rfl | inside := mem_cons.mp inside
          · exact Nat.le_of_lt past
          · exact Nat.le_trans (Nat.le_of_lt past) ((pairwise_cons.mp (pairwise_append.mp whole).2.1).1 other inside)

theorem located_eq_ok {α : Type} {found : Option α} {result : α} (ran : located found = .ok result) : found = some result := by
  cases found with
  | none => cases ran
  | some =>
    cases ran
    rfl

theorem erase_sublist {list rest : NodeList Nat} {iterator : Nat} (erased : list.erase iterator = some rest) :
    rest.values.Sublist list.values := by
  obtain ⟨_, _, rfl⟩ := Option.map_eq_some_iff.mp erased
  exact (NodeList.without_sublist iterator).map Prod.snd

theorem markInService_readyTime {mshr served : MSHR} {pendingModifiedResp : Bool} (ran : mshr.markInService pendingModifiedResp = .ok served) :
    served.readyTime = mshr.readyTime := by
  obtain ⟨_, _, ran⟩ := of_bind ran
  obtain ⟨_, clears, ran⟩ := of_bind ran
  cases ran
  split at clears
  next =>
    cases clears
    rfl
  next => exact (clearTargets_same clears).2

theorem deallocate_readyTime {mshr free : MSHR} (ran : mshr.deallocate = .ok free) : free.readyTime = mshr.readyTime := by
  obtain ⟨_, _, ran⟩ := of_bind ran
  obtain ⟨_, _, ran⟩ := of_bind ran
  cases ran
  rfl

theorem readyTime_kept {mshr : MSHR} (same : mshr.readyTime = (queue.entry index).readyTime) :
    (queue.setEntry index mshr).readyTime = queue.readyTime := by
  rw [readyTime_setEntry, same]
  exact update_eq_self index queue.readyTime

theorem markInService_ordered (ordered : Ordered queue) {pendingModifiedResp : Bool}
    (ran : MSHRQueue.markInService queue index pendingModifiedResp = .ok after) : Ordered after := by
  obtain ⟨_, marks, ran⟩ := of_bind ran
  obtain ⟨list, erased, ran⟩ := of_bind ran
  cases ran
  have times := readyTime_kept (markInService_readyTime (mapError_eq_ok.mp marks))
  have kept : Sorted queue.readyTime list.values := ordered.sublist (erase_sublist (located_eq_ok erased))
  rw [← times] at kept
  exact kept

theorem deallocate_ordered (ordered : Ordered queue) (ran : deallocate queue index = .ok after) : Ordered after := by
  obtain ⟨_, _, ran⟩ := of_bind ran
  obtain ⟨given, gives, ran⟩ := of_bind ran
  obtain ⟨entry, deallocates, ran⟩ := of_bind ran
  cases ran
  have given_ordered : Sorted queue.readyTime given.readyList.values ∧ given.entries = queue.entries := by
    split at gives
    next =>
      cases gives
      exact ⟨ordered, rfl⟩
    next =>
      obtain ⟨_, erased, gives⟩ := of_bind gives
      cases gives
      exact ⟨ordered.sublist (erase_sublist (located_eq_ok erased)), rfl⟩
  obtain ⟨kept, entries⟩ := given_ordered
  have same : given.readyTime = queue.readyTime := by
    unfold Queue.readyTime Queue.entry
    rw [entries]
  have times := readyTime_kept (deallocate_readyTime (mapError_eq_ok.mp deallocates))
  rw [← same, ← times] at kept
  exact kept

theorem markPending_ordered (ordered : Ordered queue) (ran : MSHRQueue.markPending queue index = .ok after) : Ordered after := by
  obtain ⟨_, _, ran⟩ := of_bind ran
  obtain ⟨⟨_, _⟩, added, ran⟩ := of_bind ran
  cases ran
  have times := @readyTime_kept { queue with numInService := queue.numInService - 1 } index { queue.entry index with inService := false } rfl
  have before : Ordered ({ queue with numInService := queue.numInService - 1 }.setEntry index { queue.entry index with inService := false }) := by
    unfold Ordered
    rw [times]
    exact ordered
  have kept := addToReadyList_sorted before added
  unfold Ordered
  rw [readyTime_setReadyIter]
  exact kept

theorem allocate_ordered (sound : Sound queue) (ordered : Ordered queue) {blkSize : Nat} {pkt : Packet} {above : Option Nat}
    {whenReady : Tick} {order : Nat} {allocOnFill : Bool} {mshr : Nat}
    (ran : MSHRQueue.allocate queue blkSize pkt above whenReady order allocOnFill = .ok (after, mshr)) : Ordered after := by
  unfold MSHRQueue.allocate at ran
  cases list : queue.freeList with
  | nil =>
    rw [list] at ran
    cases ran
  | cons _ rest =>
    rw [list] at ran
    obtain ⟨_, _, ran⟩ := of_bind ran
    obtain ⟨⟨entry, _⟩, _, ran⟩ := of_bind ran
    obtain ⟨⟨_, iterator⟩, added, ran⟩ := of_bind ran
    cases ran
    have unused : mshr ∉ queue.readyList.values := by
      intro inside
      have allocated := (sound.books.mem_ready.mp inside).1
      have nodup := sound.books.partition.nodup_iff.mpr nodup_range
      rw [list] at nodup
      exact (nodup_append.mp nodup).2.2 _ allocated _ mem_cons_self rfl
    have before : Ordered ({ { queue with freeList := rest }.setEntry mshr entry with
        allocatedList := (queue.allocatedList.insert none mshr).1 }.setAllocIter mshr queue.allocatedList.fresh) := by
      unfold Ordered
      rw [readyTime_setAllocIter]
      refine ordered.congr fun other inside => ?_
      have apart : other ≠ mshr := fun same => unused (same ▸ inside)
      refine (congrFun (readyTime_setEntry { queue with freeList := rest } mshr entry) other).trans ?_
      rw [update_of_ne apart]
      rfl
    have kept := addToReadyList_sorted before added
    refine Sorted.congr kept fun other _ => ?_
    exact congrFun (readyTime_setReadyIter _ mshr iterator) other

theorem change_ordered (sound : Sound queue) (ordered : Ordered queue) {mshr : MSHR}
    (waits : queue.inService index = false → mshr.readyTime = queue.readyTime index) : Ordered (queue.setEntry index mshr) := by
  unfold Ordered
  rw [readyTime_setEntry]
  refine ordered.congr fun other inside => ?_
  by_cases same : other = index
  · subst same
    rw [update_self, waits (sound.books.mem_ready.mp inside).2]
  · rw [update_of_ne same]

def Behind (queue : MSHRQueue) (index : Nat) (time : Tick) : Prop :=
  ∀ before after, queue.readyList.values = before ++ index :: after → ∀ other ∈ after, time ≤ queue.readyTime other

theorem delay_ordered_iff (sound : Sound queue) (ordered : Ordered queue) (inside : index ∈ queue.allocatedList.values)
    (waits : queue.inService index = false) {delayTicks curTick : Tick}
    (ran : MSHRQueue.delay queue index delayTicks curTick = .ok after) : Ordered after ↔ Behind queue index (curTick + delayTicks) := by
  have here : index ∈ queue.readyList.values := sound.books.mem_ready.mpr ⟨inside, waits⟩
  rw [delay_eq (sound.readyIter index here)] at ran
  obtain ⟨entry, delays, ran⟩ := of_bind ran
  cases ran
  obtain ⟨_, early, time⟩ := delay_waits (mapError_eq_ok.mp delays)
  obtain ⟨before, behind, split⟩ := append_of_mem here
  have nodup := sound.books.once
  rw [split] at nodup
  have whole : Sorted queue.readyTime (before ++ index :: behind) := split ▸ ordered
  have later : queue.readyTime index ≤ curTick + delayTicks := Nat.le_trans early (Nat.le_add_right _ _)
  have exact_iff := sorted_update_iff whole nodup later
  unfold Ordered
  rw [readyTime_setEntry, time, show (queue.setEntry index entry).readyList.values = before ++ index :: behind from split, exact_iff]
  constructor
  · intro late before' behind' split' other member
    have same := split.symm.trans split'
    have notBehind := (nodup_cons.mp (nodup_append.mp nodup).2.1).1
    have notBefore : index ∉ before := fun used => (nodup_append.mp nodup).2.2 _ used _ mem_cons_self rfl
    obtain ⟨_, _, rfl⟩ := (append_cons_inj_of_notMem notBefore notBehind).mp same
    exact late other member
  · exact fun late => late before behind split

end Operations

/-! What the order is for -/

/-- The ready list is sorted, its front is the next entry to be ready, and an entry that is ready is not kept waiting. -/
structure InOrder (queue : MSHRQueue) : Prop where
  sorted : Sorted queue.readyTime queue.readyList.values
  nextReadyTime : ∀ index ∈ queue.allocatedList.values, queue.inService index = false → queue.nextReadyTime ≤ queue.readyTime index
  attained : (∃ index ∈ queue.allocatedList.values, queue.inService index = false) →
    ∃ index ∈ queue.allocatedList.values, queue.inService index = false ∧ queue.readyTime index = queue.nextReadyTime
  getNext : ∀ curTick, (∃ index ∈ queue.allocatedList.values, queue.inService index = false ∧ queue.readyTime index ≤ curTick) →
    (queue.getNext curTick).isSome = true

theorem inOrder_iff {queue : MSHRQueue} (sound : Sound queue) : InOrder queue ↔ Ordered queue := by
  refine ⟨fun order => order.sorted, fun ordered => ?_⟩
  have waiting (index : Nat) : index ∈ queue.allocatedList.values ∧ queue.inService index = false ↔ index ∈ queue.readyList.values :=
    sound.books.mem_ready.symm
  cases list : queue.readyList.values with
  | nil =>
    have none_waits (index : Nat) (inside : index ∈ queue.allocatedList.values) : queue.inService index ≠ false := by
      intro waits
      have member := (waiting index).mp ⟨inside, waits⟩
      rw [list] at member
      cases member
    refine ⟨ordered, fun index inside waits => absurd waits (none_waits index inside), ?_, ?_⟩
    · rintro ⟨index, inside, waits⟩
      exact absurd waits (none_waits index inside)
    · rintro _ ⟨index, inside, waits, _⟩
      exact absurd waits (none_waits index inside)
  | cons front =>
    have next : queue.nextReadyTime = queue.readyTime front := by
      rw [nextReadyTime, list]
      rfl
    have least : ∀ index ∈ queue.allocatedList.values, queue.inService index = false → queue.readyTime front ≤ queue.readyTime index := by
      intro index inside waits
      have member := (waiting index).mp ⟨inside, waits⟩
      unfold Ordered at ordered
      rw [list] at member ordered
      obtain rfl | member := mem_cons.mp member
      · exact Nat.le_refl _
      · exact (pairwise_cons.mp ordered).1 index member
    refine ⟨ordered, fun index inside waits => next ▸ least index inside waits, fun _ => ?_, ?_⟩
    · obtain ⟨inside, waits⟩ := (waiting front).mpr (list ▸ mem_cons_self)
      exact ⟨front, inside, waits, next.symm⟩
    · rintro _ ⟨index, inside, waits, due⟩
      have ready := Nat.le_trans (least index inside waits) due
      rw [getNext, list]
      simp [Nat.not_lt.mpr ready]

/-! Whole runs -/

/-- The calls of the cache without `moveToFront`. While an entry waits, nothing else changes when it is ready. -/
def Legal (queue : MSHRQueue) (op : MSHRQueueOp) : Prop :=
  MSHRQueue.Called queue op ∧
    match op with
    | .moveToFront _ => False
    | .change mshr entry => queue.inService mshr = false → entry.readyTime = queue.readyTime mshr
    | _ => True

/-- A delay is clear if the entry does not get later than one behind it. -/
def Clear (queue : MSHRQueue) : MSHRQueueOp → Prop
  | .delay mshr delayTicks curTick => Behind queue mshr (curTick + delayTicks)
  | _ => True

theorem step_ordered_iff {queue after : MSHRQueue} {op : MSHRQueueOp} {labels : List Nat} (sound : Sound queue) (ordered : Ordered queue)
    (legal : Legal queue op) (ran : MSHRQueue.step queue op = .ok (after, labels)) : Ordered after ↔ Clear queue op := by
  cases op with
  | allocate =>
    obtain ⟨⟨_, _⟩, done, same⟩ := of_bind ran
    cases same
    exact iff_of_true (allocate_ordered sound ordered done) trivial
  | deallocate =>
    obtain ⟨_, done, same⟩ := of_bind ran
    cases same
    exact iff_of_true (deallocate_ordered ordered done) trivial
  | moveToFront => exact absurd legal.2 not_false
  | delay =>
    obtain ⟨_, done, same⟩ := of_bind ran
    cases same
    exact delay_ordered_iff sound ordered legal.1.1 legal.1.2 done
  | markInService =>
    obtain ⟨_, done, same⟩ := of_bind ran
    cases same
    exact iff_of_true (markInService_ordered ordered done) trivial
  | markPending =>
    obtain ⟨_, done, same⟩ := of_bind ran
    cases same
    exact iff_of_true (markPending_ordered ordered done) trivial
  | change =>
    cases ran
    exact iff_of_true (change_ordered sound ordered legal.2) trivial

/-- In a run the order holds in every state exactly if every delay is clear. -/
theorem ready_order_iff (numEntries reserve : Nat) {ops : List MSHRQueueOp} (legal : Each MSHRQueue.step Legal (.make numEntries reserve {}) ops)
    {final : MSHRQueue} {labels : List Nat} (ran : run MSHRQueue.step (.make numEntries reserve {}) ops = .ok (final, labels)) :
    (∀ before after middle past, ops = before ++ after → run MSHRQueue.step (.make numEntries reserve {}) before = .ok (middle, past) →
        InOrder middle) ↔ Each MSHRQueue.step Clear (.make numEntries reserve {}) ops := by
  have keeps : ∀ queue op after labels, Sound queue → InOrder queue → Legal queue op → MSHRQueue.step queue op = .ok (after, labels) →
      Sound after := by
    intro queue op after labels sound _ legal taken
    have yields := step_sound sound op legal.1
    rw [taken] at yields
    exact yields
  have start := initial numEntries reserve
  refine run_always_iff Legal Clear Sound InOrder keeps ?_ start ((inOrder_iff start).mpr List.Pairwise.nil) legal ran
  intro queue op after labels sound order legal taken
  rw [inOrder_iff (keeps queue op after labels sound order legal taken)]
  exact step_ordered_iff sound ((inOrder_iff sound).mp order) legal taken

instance (queue : MSHRQueue) (op : MSHRQueueOp) : Decidable (Legal queue op) :=
  have : Decidable (match op with
      | .moveToFront _ => False
      | .change mshr entry => queue.inService mshr = false → entry.readyTime = queue.readyTime mshr
      | _ => True) :=
    match op with
    | .moveToFront _ => inferInstanceAs (Decidable False)
    | .change mshr entry => inferInstanceAs (Decidable (queue.inService mshr = false → entry.readyTime = queue.readyTime mshr))
    | .allocate .. | .deallocate _ | .delay .. | .markInService .. | .markPending _ => inferInstanceAs (Decidable True)
  inferInstanceAs (Decidable (_ ∧ _))

def heldBack : List MSHRQueueOp :=
  let miss (paddr : Addr) : Packet := .ofRequest { id := 0, paddr, size := 64, flags := 0 } .readReq []
  [.allocate 64 (miss 0) none 0 0 true, .allocate 64 (miss 64) none 5 1 true, .delay 0 10 0]

theorem ready_order_iff_heldBack :
    (∀ before after middle past, heldBack = before ++ after → run MSHRQueue.step (.make 2 0 {}) before = .ok (middle, past) →
        InOrder middle) ↔ Each MSHRQueue.step Clear (.make 2 0 {}) heldBack := by
  have legal : Each MSHRQueue.step Legal (.make 2 0 {}) heldBack := by decide
  cases ran : run MSHRQueue.step (.make 2 0 {}) heldBack with
  | error => cases ran
  | ok => exact ready_order_iff 2 0 legal ran

/-- The second one is ready and not picked. -/
theorem heldBack_blocks :
    ¬∀ ops : List MSHRQueueOp, Each MSHRQueue.step Legal (.make 2 0 {}) ops → ∀ final labels,
      run MSHRQueue.step (.make 2 0 {}) ops = .ok (final, labels) → InOrder final := by
  intro always
  cases ran : run MSHRQueue.step (.make 2 0 {}) heldBack with
  | error => cases ran
  | ok ended =>
    have order := always heldBack (by decide) ended.1 ended.2 ran
    have picked := order.getNext 5 ⟨1, ?_⟩
    · cases ran
      revert picked
      decide
    · cases ran
      decide

end ImcGem5.Mem.Proofs.ReadyOrder
