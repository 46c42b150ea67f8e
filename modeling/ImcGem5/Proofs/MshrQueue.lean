import Mathlib.Data.List.Nodup
import Mathlib.Data.List.Range
import ImcGem5.Mem.MshrQueue

/-! The lists of the queue of miss status holding registers and its two counters stay in
step, whatever the order of the calls. -/

namespace ImcGem5.Mem.Proofs.MshrQueue
open Lib List NodeList Queue Function MSHRQueue

/-! The accounts that a queue keeps, apart from how it keeps them -/

/-- Entries are allocated or free; those not in service are ready. -/
structure Books (total : Nat) (allocated free ready : List Nat) (served : Nat → Bool) (numServed count : Int) : Prop where
  partition : (allocated ++ free).Perm (List.range total)
  ready : ready.Perm (allocated.filter fun index => !served index)
  numServed : numServed = allocated.countP served
  count : count = allocated.length

namespace Books

variable {total : Nat} {allocated allocated' free free' ready ready' : List Nat} {served served' : Nat → Bool} {numServed count : Int}

theorem filter_same {list : List Nat} (same : ∀ index ∈ list, served' index = served index) :
    (list.filter fun index => !served' index) = list.filter fun index => !served index :=
  filter_congr fun index inside => by rw [same index inside]

theorem countP_same {list : List Nat} (same : ∀ index ∈ list, served' index = served index) : list.countP served' = list.countP served :=
  countP_congr fun index inside => by rw [same index inside]

section

variable (books : Books total allocated free ready served numServed count)
include books

theorem nodup : allocated.Nodup :=
  (nodup_append.mp (books.partition.nodup_iff.mpr nodup_range)).1

theorem once : ready.Nodup :=
  books.ready.nodup_iff.mpr (books.nodup.filter _)

theorem mem_ready {index : Nat} : index ∈ ready ↔ index ∈ allocated ∧ served index = false := by
  rw [books.ready.mem_iff, mem_filter, Bool.not_eq_true']

theorem length : allocated.length + free.length = total := by
  rw [← length_append, books.partition.length_eq, length_range]

theorem perm (same : allocated.Perm allocated') (again : ready.Perm ready') :
    Books total allocated' free ready' served numServed count where
  partition := (same.symm.append_right free).trans books.partition
  ready := again.symm.trans (books.ready.trans (same.filter _))
  numServed := by rw [books.numServed, same.countP_eq]
  count := by rw [books.count, same.length_eq]

theorem congr (same : ∀ index ∈ allocated, served' index = served index) :
    Books total allocated free ready served' numServed count where
  partition := books.partition
  ready := by
    rw [filter_same same]
    exact books.ready
  numServed := by
    rw [books.numServed, countP_same same]
  count := books.count

end

section Entry
variable {index : Nat} {others : List Nat}

section

variable (books : Books total (index :: others) free ready served numServed count)
include books

theorem notMem : index ∉ others := (nodup_cons.mp books.nodup).1

theorem update_others (value : Bool) : ∀ other ∈ others, update served index value other = served other := by
  intro other inside
  rw [update_of_ne]
  rintro rfl
  exact books.notMem inside

end

theorem serve (books : Books total (index :: others) free (index :: ready) served numServed count) (waits : served index = false) :
    Books total (index :: others) free ready (update served index true) (numServed + 1) count where
  partition := books.partition
  ready := by
    have kept := books.ready
    rw [filter_cons_of_pos (by simp [waits])] at kept
    rw [filter_cons_of_neg (by simp), filter_same (books.update_others true)]
    exact perm_cons index |>.mp kept
  numServed := by
    rw [books.numServed, countP_cons_of_neg (by simp [waits]), countP_cons_of_pos (by simp), countP_same (books.update_others true)]
    simp
  count := books.count

theorem unserve (books : Books total (index :: others) free ready served numServed count) (serves : served index = true) :
    Books total (index :: others) free (index :: ready) (update served index false) (numServed - 1) count where
  partition := books.partition
  ready := by
    have kept := books.ready
    rw [filter_cons_of_neg (by simp [serves])] at kept
    rw [filter_cons_of_pos (by simp), filter_same (books.update_others false)]
    exact kept.cons index
  numServed := by
    rw [books.numServed, countP_cons_of_pos (by simp [serves]), countP_cons_of_neg (by simp),
      countP_same (books.update_others false)]
    simp
  count := books.count

theorem allocate (books : Books total allocated (index :: free) ready served numServed count) :
    Books total (index :: allocated) free (index :: ready) (update served index false) numServed (count + 1) := by
  have apart : index ∉ allocated := by
    have nodup := books.partition.nodup_iff.mpr nodup_range
    intro inside
    exact (nodup_append.mp nodup).2.2 _ inside _ mem_cons_self rfl
  have others : ∀ other ∈ allocated, update served index false other = served other := by
    intro other inside
    rw [update_of_ne]
    rintro rfl
    exact apart inside
  refine ⟨perm_middle.symm.trans books.partition, ?_, ?_, ?_⟩
  · rw [filter_cons_of_pos (by simp), filter_same others]
    exact books.ready.cons index
  · rw [books.numServed, countP_cons_of_neg (by simp), countP_same others]
  · rw [books.count, length_cons]
    rfl

theorem deallocate (books : Books total (index :: others) free ready served numServed count) (serves : served index = true) :
    Books total others (index :: free) ready served (numServed - 1) (count - 1) where
  partition := perm_middle.trans books.partition
  ready := by
    have kept := books.ready
    rwa [filter_cons_of_neg (by simp [serves])] at kept
  numServed := by
    rw [books.numServed, countP_cons_of_pos (by simp [serves])]
    simp
  count := by
    rw [books.count, length_cons]
    simp

theorem deallocate_ready (books : Books total (index :: others) free (index :: ready) served numServed count) (waits : served index = false) :
    Books total others (index :: free) ready served numServed (count - 1) where
  partition := perm_middle.trans books.partition
  ready := by
    have kept := books.ready
    rw [filter_cons_of_pos (by simp [waits])] at kept
    exact perm_cons index |>.mp kept
  numServed := by rw [books.numServed, countP_cons_of_neg (by simp [waits])]
  count := by
    rw [books.count, length_cons]
    simp

end Entry

end Books

/-! What the operations of the queue do to the books -/

/-- The books, and each entry knows its places. -/
structure Sound (queue : MSHRQueue) : Prop where
  books : Books queue.numEntries queue.allocatedList.values queue.freeList queue.readyList.values queue.inService queue.numInService
    queue.allocated
  allocIter : ∀ index ∈ queue.allocatedList.values, ((queue.entries index).allocIter, index) ∈ queue.allocatedList.nodes
  readyIter : ∀ index ∈ queue.readyList.values, ((queue.entries index).readyIter, index) ∈ queue.readyList.nodes

def Excused (fault : QueueFault) : Prop := ∃ abort, fault = .entry abort

theorem initial (numEntries reserve : Nat) : Sound (.make numEntries reserve {}) where
  books := ⟨List.Perm.refl _, List.Perm.refl _, rfl, rfl⟩
  allocIter := fun _ inside => absurd inside not_mem_nil
  readyIter := fun _ inside => absurd inside not_mem_nil

section Fields
variable (queue : MSHRQueue) (index : Nat) (mshr : MSHR)

@[simp] theorem inService_setEntry : (queue.setEntry index mshr).inService = update queue.inService index mshr.inService := by
  funext other
  by_cases same : other = index
  · subst same
    simp [inService, entry, setEntry, QueueEntry.inService]
  · simp [inService, entry, setEntry, same]

@[simp] theorem allocIter_setEntry (other : Nat) : ((queue.setEntry index mshr).entries other).allocIter = (queue.entries other).allocIter := by
  by_cases same : other = index
  · subst same
    simp [setEntry]
  · simp [setEntry, same]

@[simp] theorem readyIter_setEntry (other : Nat) : ((queue.setEntry index mshr).entries other).readyIter = (queue.entries other).readyIter := by
  by_cases same : other = index
  · subst same
    simp [setEntry]
  · simp [setEntry, same]

@[simp] theorem inService_setReadyIter (iterator : Nat) : (queue.setReadyIter index iterator).inService = queue.inService := by
  funext other
  by_cases same : other = index
  · subst same
    simp [inService, entry, setReadyIter]
  · simp [inService, entry, setReadyIter, same]

@[simp] theorem inService_setAllocIter (iterator : Nat) : (queue.setAllocIter index iterator).inService = queue.inService := by
  funext other
  by_cases same : other = index
  · subst same
    simp [inService, entry, setAllocIter]
  · simp [inService, entry, setAllocIter, same]

end Fields

theorem entry_yields {α : Type} {result : Except Abort α} {post : α → Prop} (yields : ∀ value, result = .ok value → post value) :
    Yields Excused (result.mapError .entry) post := by
  cases result with
  | error abort => exact ⟨abort, rfl⟩
  | ok value => exact yields value rfl

theorem require_eq_ok {condition : Bool} {text : String} (holds : require condition text = .ok ()) : condition = true := by
  cases condition with
  | false => cases holds
  | true => rfl

/-- The panic cannot happen: what stops the entry from going to the end is found. -/
theorem addToReadyList_inserts (queue : MSHRQueue) (index : Nat) :
    ∃ position, queue.addToReadyList index = .ok (queue.readyList.insert position index) := by
  unfold addToReadyList
  cases last : queue.readyList.nodes.getLast? with
  | none => exact ⟨none, rfl⟩
  | some back =>
    by_cases later : queue.readyTime back.2 ≤ queue.readyTime index
    · exact ⟨none, by simp [later]⟩
    · have inside : back ∈ queue.readyList.nodes := mem_of_getLast? last
      have found : (queue.readyList.nodes.find? fun node => decide (queue.readyTime index < queue.readyTime node.2)).isSome = true :=
        find?_isSome.mpr ⟨back, inside, decide_eq_true (Nat.lt_of_not_le later)⟩
      obtain ⟨node, is⟩ := Option.isSome_iff_exists.mp found
      exact ⟨some node.1, by simp [later, is]⟩

theorem added_yields {α : Type} (queue : MSHRQueue) (index : Nat) {next : NodeList Nat × Nat → Except QueueFault α} {post : α → Prop}
    (yields : ∀ position, Yields Excused (next (queue.readyList.insert position index)) post) :
    Yields Excused (queue.addToReadyList index >>= next) post := by
  obtain ⟨position, inserts⟩ := addToReadyList_inserts queue index
  rw [inserts, ok_bind]
  exact yields position

/-! What the entries do -/

variable {mshr after : MSHR}

theorem clearTargets_same (ran : mshr.clearTargets = .ok after) : after.inService = mshr.inService ∧ after.readyTime = mshr.readyTime := by
  obtain ⟨_, _, ran⟩ := of_bind ran
  cases ran
  exact ⟨rfl, rfl⟩

theorem markInService_serves {pendingModifiedResp : Bool} (ran : mshr.markInService pendingModifiedResp = .ok after) :
    mshr.inService = false ∧ after.inService = true := by
  obtain ⟨_, waits, ran⟩ := of_bind ran
  obtain ⟨_, clears, ran⟩ := of_bind ran
  have waits := require_eq_ok waits
  refine ⟨by simpa using waits, ?_⟩
  cases ran
  split at clears
  next =>
    cases clears
    rfl
  next => exact (clearTargets_same clears).1

theorem allocate_waits {blkSize : Nat} {pkt : Packet} {above : Option Nat} {whenReady : Tick} {order : Nat}
    {allocOnFill : Bool} {labels : List MshrLabel} (ran : mshr.allocate blkSize pkt above whenReady order allocOnFill = .ok (after, labels)) :
    after.inService = false ∧ after.readyTime = whenReady := by
  obtain ⟨_, _, ran⟩ := of_bind ran
  cases ran
  exact ⟨rfl, rfl⟩

/-! Every operation keeps the books -/

section Steps
variable {queue : MSHRQueue} {index : Nat}

theorem located_some {α : Type} (result : α) : located (some result) = .ok result := rfl

theorem iterator_insert {list : NodeList Nat} {position : Option Nat} {iterator : Nat → Nat} (inside : ∀ other ∈ list.values, (iterator other, other) ∈ list.nodes)
    {fresh : Nat → Nat} (new : fresh index = list.fresh) (old : ∀ other, other ≠ index → fresh other = iterator other) :
    ∀ other ∈ (list.insert position index).1.values, (fresh other, other) ∈ (list.insert position index).1.nodes := by
  intro other member
  rw [mem_insert]
  by_cases same : other = index
  · subst same
    exact .inl (by rw [new])
  · right
    rw [old other same]
    refine inside other ?_
    rw [(values_insert position index).mem_iff, mem_cons] at member
    exact member.resolve_left same

theorem iterator_without {list : NodeList Nat} {iterator : Nat → Nat} (inside : ∀ other ∈ list.values, (iterator other, other) ∈ list.nodes)
    (nodup : list.values.Nodup) (here : index ∈ list.values) :
    ∀ other ∈ (list.without (iterator index)).values, (iterator other, other) ∈ (list.without (iterator index)).nodes := by
  intro other member
  have split := values_without (inside index here)
  have apart : index ∉ (list.without (iterator index)).values := (nodup_cons.mp (split.nodup_iff.mp nodup)).1
  refine NodeList.mem_without (inside index here) (inside other ?_) ?_
  · exact split.mem_iff.mpr (mem_cons_of_mem _ member)
  · rintro same
    have same : other = index := congrArg Prod.snd same
    exact apart (same ▸ member)

theorem markInService_sound (sound : Sound queue) (inside : index ∈ queue.allocatedList.values) (pendingModifiedResp : Bool) :
    Yields Excused (markInService queue index pendingModifiedResp) Sound := by
  unfold markInService
  refine (entry_yields fun _ => markInService_serves).bind fun entry => ?_
  rintro ⟨waits, serves⟩
  have here : index ∈ queue.readyList.values := sound.books.mem_ready.mpr ⟨inside, waits⟩
  have node := sound.readyIter index here
  dsimp only
  rw [readyIter_setEntry, show (queue.setEntry index entry).readyList = queue.readyList from rfl, erase_of_mem node, located_some,
    ok_bind]
  have split := values_without node
  have books := (sound.books.perm (perm_cons_erase inside) split).serve waits
  refine ⟨?_, ?_, ?_⟩
  · have served := inService_setEntry queue index entry
    rw [serves] at served
    rw [← served] at books
    exact books.perm (perm_cons_erase inside).symm (.refl _)
  · intro other member
    rw [allocIter_setEntry]
    exact sound.allocIter other member
  · intro other member
    rw [readyIter_setEntry]
    exact iterator_without sound.readyIter sound.books.once here other member

theorem readied_sound (queue : MSHRQueue) (position : Option Nat) (index : Nat)
    (books : Books queue.numEntries queue.allocatedList.values queue.freeList (index :: queue.readyList.values) queue.inService
      queue.numInService queue.allocated)
    (allocIter : ∀ other ∈ queue.allocatedList.values, ((queue.entries other).allocIter, other) ∈ queue.allocatedList.nodes)
    (readyIter : ∀ other ∈ queue.readyList.values, ((queue.entries other).readyIter, other) ∈ queue.readyList.nodes) :
    Sound ({ queue with readyList := (queue.readyList.insert position index).1 }.setReadyIter index queue.readyList.fresh) where
  books := by
    have served := inService_setReadyIter { queue with readyList := (queue.readyList.insert position index).1 } index queue.readyList.fresh
    rw [served]
    exact books.perm (.refl _) (values_insert position index).symm
  allocIter := by
    intro other member
    have kept := allocIter other member
    by_cases same : other = index
    · subst same
      simpa [setReadyIter] using kept
    · simpa [setReadyIter, same] using kept
  readyIter := by
    refine iterator_insert readyIter (by simp [setReadyIter]) ?_
    intro other apart
    simp [setReadyIter, apart]

theorem markPending_sound (sound : Sound queue) (inside : index ∈ queue.allocatedList.values) (serves : queue.inService index = true) :
    Yields Excused (markPending queue index) Sound := by
  unfold markPending
  rw [serves, checked, if_pos rfl, ok_bind]
  generalize waits : ({ queue.entry index with inService := false } : MSHR) = entry
  refine added_yields _ index fun position => ?_
  have served := inService_setEntry queue index entry
  rw [← waits] at served
  have books := (sound.books.perm (perm_cons_erase inside) (.refl _)).unserve serves
  rw [← served, waits] at books
  refine readied_sound ({ queue with numInService := queue.numInService - 1 }.setEntry index entry) position index ?_ ?_ ?_
  · exact books.perm (perm_cons_erase inside).symm (.refl _)
  · intro other member
    rw [allocIter_setEntry]
    exact sound.allocIter other member
  · intro other member
    rw [readyIter_setEntry]
    exact sound.readyIter other member

theorem moveToFront_sound (sound : Sound queue) (inside : index ∈ queue.allocatedList.values) :
    Yields Excused (moveToFront queue index) Sound := by
  unfold moveToFront
  cases waits : queue.inService index with
  | true => exact sound
  | false =>
    have here : index ∈ queue.readyList.values := sound.books.mem_ready.mpr ⟨inside, waits⟩
    have node := sound.readyIter index here
    rw [if_neg Bool.false_ne_true, node?_of_mem node, located_some, ok_bind, checked, if_pos (beq_self_eq_true _), ok_bind,
      erase_of_mem node, located_some, ok_bind]
    refine readied_sound { queue with readyList := queue.readyList.without (queue.entries index).readyIter } _ index ?_ ?_ ?_
    · exact sound.books.perm (.refl _) (values_without node)
    · exact sound.allocIter
    · exact iterator_without sound.readyIter sound.books.once here

theorem allocate_sound (sound : Sound queue) {blkSize : Nat} {pkt : Packet} {above : Option Nat} {whenReady : Tick} {order : Nat}
    {allocOnFill : Bool} (free : queue.freeList ≠ []) :
    Yields Excused (allocate queue blkSize pkt above whenReady order allocOnFill) fun taken => Sound taken.1 := by
  unfold allocate
  cases list : queue.freeList with
  | nil => exact absurd list free
  | cons index rest =>
    refine (entry_yields fun _ _ => trivial).bind fun _ _ => (entry_yields fun _ => allocate_waits).bind fun ⟨entry, _⟩ => ?_
    rintro ⟨waits, _⟩
    have books := sound.books
    rw [list] at books
    have served : ({ queue with freeList := rest }.setEntry index entry).inService = update queue.inService index false := by
      rw [inService_setEntry, waits]
      rfl
    refine added_yields _ index fun position => ?_
    refine readied_sound { { { queue with freeList := rest }.setEntry index entry with
      allocatedList := (queue.allocatedList.insert none index).1 }.setAllocIter index queue.allocatedList.fresh with
      allocated := queue.allocated + 1 } position index ?_ ?_ ?_
    · have books := books.allocate.perm (values_insert none index).symm (.refl _)
      rw [← served] at books
      exact books.congr fun other _ => congrFun (inService_setAllocIter _ _ _) other
    · refine iterator_insert sound.allocIter (by simp [setAllocIter]) ?_
      intro other apart
      simp [setAllocIter, setEntry, apart]
    · intro other member
      have kept := sound.readyIter other member
      by_cases same : other = index
      · subst same
        simpa [setAllocIter, setEntry] using kept
      · simpa [setAllocIter, setEntry, same] using kept

theorem delay_eq (here : ((queue.entries index).readyIter, index) ∈ queue.readyList.nodes) (delayTicks curTick : Tick) :
    delay queue index delayTicks curTick =
      ((queue.entry index).delay delayTicks curTick).mapError .entry >>= fun entry => .ok (queue.setEntry index entry) := by
  unfold delay
  congr 1
  funext entry
  dsimp only
  rw [readyIter_setEntry, show (queue.setEntry index entry).readyList = queue.readyList from rfl,
    findFrom_self here (decide_eq_true (Nat.le_refl _)), NodeList.splice, if_pos rfl, located_some, ok_bind]
  rfl

theorem delay_waits {mshr after : MSHR} {delayTicks curTick : Tick} (ran : mshr.delay delayTicks curTick = .ok after) :
    after.inService = mshr.inService ∧ mshr.readyTime ≤ curTick ∧ after.readyTime = curTick + delayTicks := by
  obtain ⟨_, early, ran⟩ := of_bind ran
  cases ran
  exact ⟨rfl, of_decide_eq_true (require_eq_ok early), rfl⟩

section

variable (sound : Sound queue)
include sound

theorem setEntry_sound {mshr : MSHR} (same : index ∈ queue.allocatedList.values → mshr.inService = queue.inService index) :
    Sound (queue.setEntry index mshr) where
  books := by
    refine sound.books.congr fun other member => ?_
    rw [inService_setEntry]
    by_cases here : other = index
    · subst here
      rw [update_self, same member]
    · rw [update_of_ne here]
  allocIter := by
    intro other member
    rw [allocIter_setEntry]
    exact sound.allocIter other member
  readyIter := by
    intro other member
    rw [readyIter_setEntry]
    exact sound.readyIter other member

theorem delay_sound (inside : index ∈ queue.allocatedList.values) (waits : queue.inService index = false)
    (delayTicks curTick : Tick) : Yields Excused (delay queue index delayTicks curTick) Sound := by
  rw [delay_eq (sound.readyIter index (sound.books.mem_ready.mpr ⟨inside, waits⟩))]
  refine (entry_yields fun _ => delay_waits).bind fun _ ⟨kept, _⟩ => ?_
  exact setEntry_sound sound fun _ => kept

theorem deallocate_sound (inside : index ∈ queue.allocatedList.values) : Yields Excused (deallocate queue index) Sound := by
  have node := sound.allocIter index inside
  have split := values_without node
  have books := sound.books.perm split (.refl _)
  have allocIters := iterator_without sound.allocIter sound.books.nodup inside
  have gone : index ∉ (queue.allocatedList.without (queue.entries index).allocIter).values := books.notMem
  unfold deallocate
  rw [erase_of_mem node, located_some, ok_bind]
  dsimp only
  cases waits : queue.inService index with
  | true =>
    rw [show inService { queue with
      allocatedList := queue.allocatedList.without (queue.entries index).allocIter, freeList := index :: queue.freeList
      allocated := queue.allocated - 1 } index = true from waits, if_pos rfl, ok_bind]
    refine (entry_yields fun _ _ => trivial).bind fun entry _ => ?_
    have given : Sound { queue with
        allocatedList := queue.allocatedList.without (queue.entries index).allocIter, freeList := index :: queue.freeList
        allocated := queue.allocated - 1, numInService := queue.numInService - 1 } :=
      ⟨books.deallocate waits, allocIters, sound.readyIter⟩
    exact setEntry_sound given fun member => absurd member gone
  | false =>
    have here : index ∈ queue.readyList.values := sound.books.mem_ready.mpr ⟨inside, waits⟩
    have ready := sound.readyIter index here
    rw [show inService { queue with
      allocatedList := queue.allocatedList.without (queue.entries index).allocIter, freeList := index :: queue.freeList
      allocated := queue.allocated - 1 } index = false from waits, if_neg Bool.false_ne_true, erase_of_mem ready, located_some, ok_bind]
    refine (entry_yields fun _ _ => trivial).bind fun entry _ => ?_
    have books := (books.perm (.refl _) (values_without ready)).deallocate_ready waits
    have given : Sound { queue with
        allocatedList := queue.allocatedList.without (queue.entries index).allocIter, freeList := index :: queue.freeList
        allocated := queue.allocated - 1, readyList := queue.readyList.without (queue.entries index).readyIter } :=
      ⟨books, allocIters, iterator_without sound.readyIter sound.books.once here⟩
    exact setEntry_sound given fun member => absurd member gone

theorem step_sound (op : MSHRQueueOp) (called : MSHRQueue.Called queue op) :
    Yields Excused (step queue op) fun taken => Sound taken.1 := by
  have unlabelled {result : Except QueueFault MSHRQueue} (yields : Yields Excused result Sound) :
      Yields Excused (result >>= fun queue => .ok (queue, ([] : List Nat))) fun taken => Sound taken.1 := yields.bind fun _ sound => sound
  cases op with
  | allocate => exact (allocate_sound sound called).bind fun _ sound => sound
  | deallocate => exact unlabelled (deallocate_sound sound called)
  | moveToFront => exact unlabelled (moveToFront_sound sound called)
  | delay _ delayTicks curTick => exact unlabelled (delay_sound sound called.1 called.2 delayTicks curTick)
  | markInService _ pendingModifiedResp => exact unlabelled (markInService_sound sound called pendingModifiedResp)
  | markPending => exact unlabelled (markPending_sound sound called.1 called.2)
  | change => exact setEntry_sound sound fun _ => called.2

end

end Steps

/-! What the lists and the counters of a queue say of its entries -/

structure Accounted (queue : MSHRQueue) : Prop where
  partition : (queue.allocatedList.values ++ queue.freeList).Perm (List.range queue.numEntries)
  once : queue.readyList.values.Nodup
  ready : ∀ index, index ∈ queue.readyList.values ↔ index ∈ queue.allocatedList.values ∧ queue.inService index = false
  allocated : queue.allocated = queue.allocatedList.values.length
  numInService : queue.numInService = queue.allocatedList.values.countP queue.inService
  isEmpty : queue.isEmpty = true ↔ queue.allocatedList.values = []
  isFull : queue.isFull = true ↔ queue.freeList.length ≤ queue.numReserve

theorem Sound.accounted {queue : MSHRQueue} (sound : Sound queue) : Accounted queue where
  partition := sound.books.partition
  once := sound.books.once
  ready := fun _ => sound.books.mem_ready
  allocated := sound.books.count
  numInService := sound.books.numServed
  isEmpty := by
    rw [Queue.isEmpty, beq_iff_eq, sound.books.count, Int.natCast_eq_zero, length_eq_zero_iff]
  isFull := by
    have length := sound.books.length
    rw [isFull, decide_eq_true_iff, sound.books.count]
    omega

/-- The books stay right in every run, and only an assertion of an entry can end it. -/
theorem queue_accounted (numEntries reserve : Nat) (ops : List MSHRQueueOp)
    (called : Each MSHRQueue.step MSHRQueue.Called (.make numEntries reserve {}) ops) :
    Yields Excused (run MSHRQueue.step (.make numEntries reserve {}) ops) fun ended => Accounted ended.1 := by
  have yields := @run_yields _ _ _ _ step Excused MSHRQueue.Called (fun queue _ => Sound queue)
    (fun _ _ op sound called => step_sound sound op called) _ [] ops (initial numEntries reserve) called
  exact yields.mono fun _ sound => sound.accounted

def twoMisses : List MSHRQueueOp :=
  let miss (paddr : Addr) : Packet := .ofRequest { id := 0, paddr, size := 64, flags := 0 } .readReq []
  [.allocate 64 (miss 0) none 5 0 true, .allocate 64 (miss 64) none 7 1 true, .markInService 0 false, .markPending 0, .moveToFront 1]

theorem queue_accounted_twoMisses : Yields Excused (run MSHRQueue.step (.make 2 1 {}) twoMisses) fun ended => Accounted ended.1 :=
  queue_accounted 2 1 twoMisses (by decide)

example : (run step (.make 2 1 {}) twoMisses).toOption.map (fun ended => ended.1.readyList.values) = some [1, 0] := by decide

end ImcGem5.Mem.Proofs.MshrQueue
