import ImcGem5.Mem.Dram

/-! The books of the DRAM controller. Its queues are counted several times over, in the
interface, by requestor and by address, and a read that was split waits for its last
burst in a helper that its entries share. -/

namespace ImcGem5.Mem.Dram.Proofs.Accounting
open Lib Dram.MemCtrl List Function

section Counting

/-- What quality of service counts, of entries with their requestors and addresses. -/
structure Logged (priorities : Nat → Nat) (times : Nat × Addr → Nat) (entries : List (Nat × Addr)) : Prop where
  priorities : ∀ id, priorities id = entries.countP fun entry => entry.1 == id
  times : ∀ key, times key = entries.count key

variable {priorities : Nat → Nat} {times : Nat × Addr → Nat} {entries fewer more : List (Nat × Addr)}

section

variable (logged : Logged priorities times entries)
include logged

theorem Logged.grow (key : Nat × Addr) (perm : more.Perm (key :: entries)) :
    Logged (update priorities key.1 (priorities key.1 + 1)) (update times key (times key + 1)) more where
  priorities id := by
    rw [perm.countP_eq, countP_cons, update_apply, ← logged.priorities]
    by_cases same : key.1 = id
    · simp [same]
    · simp [same, Ne.symm same]
  times other := by
    rw [perm.count_eq, count_cons, update_apply, ← logged.times]
    by_cases same : key = other
    · simp [same]
    · simp [same, Ne.symm same]

theorem Logged.some (key : Nat × Addr) (perm : entries.Perm (key :: fewer)) : priorities key.1 ≠ 0 ∧ times key ≠ 0 := by
  rw [logged.priorities, logged.times, perm.countP_eq, perm.count_eq]
  simp

theorem Logged.shrink (key : Nat × Addr) (perm : entries.Perm (key :: fewer)) :
    Logged (update priorities key.1 (priorities key.1 - 1)) (update times key (times key - 1)) fewer where
  priorities id := by
    have counted := logged.priorities id
    rw [perm.countP_eq, countP_cons] at counted
    rw [update_apply]
    by_cases same : key.1 = id
    · subst same
      simp at counted ⊢
      omega
    · rw [if_neg (Ne.symm same), counted]
      simp [same]
  times other := by
    have counted := logged.times other
    rw [perm.count_eq, count_cons] at counted
    rw [update_apply]
    by_cases same : key = other
    · subst same
      simp at counted ⊢
      omega
    · rw [if_neg (Ne.symm same), counted]
      simp [same]

end

end Counting

def logKey (p : MemPacket) : Nat × Addr := (p.pkt.requestorId, p.addr)

structure Ledger where
  readQueue : List MemPacket
  writeQueue : List MemPacket
  respQueue : List MemPacket
  isInWriteQueue : Finset Addr
  totalReadQueueSize : Nat
  totalWriteQueueSize : Nat
  readQueueSize : Nat
  writeQueueSize : Nat
  packetPriorities : Nat → Nat
  requestTimes : Nat × Addr → Nat

def ledger (ctrl : MemCtrl) : Ledger where
  readQueue := ctrl.readQueue
  writeQueue := ctrl.writeQueue
  respQueue := ctrl.respQueue
  isInWriteQueue := ctrl.isInWriteQueue
  totalReadQueueSize := ctrl.totalReadQueueSize
  totalWriteQueueSize := ctrl.totalWriteQueueSize
  readQueueSize := ctrl.readQueueSize
  writeQueueSize := ctrl.writeQueueSize
  packetPriorities := ctrl.packetPriorities
  requestTimes := ctrl.requestTimes

/-- Counters, write set and logs agree with the queues. -/
structure Books (params : Params) (ledger : Ledger) : Prop where
  reads : ledger.readQueueSize = ledger.readQueue.length
  totalReads : ledger.totalReadQueueSize = ledger.readQueue.length
  writes : ledger.writeQueueSize = ledger.writeQueue.length
  totalWrites : ledger.totalWriteQueueSize = ledger.writeQueue.length
  readRoom : ledger.readQueue.length + ledger.respQueue.length ≤ params.readBufferSize
  writeRoom : ledger.writeQueue.length ≤ params.writeBufferSize
  distinct : (ledger.writeQueue.map fun p => params.burstAlign p.addr).Nodup
  written : ledger.isInWriteQueue = (ledger.writeQueue.map fun p => params.burstAlign p.addr).toFinset
  logged : Logged ledger.packetPriorities ledger.requestTimes ((ledger.readQueue ++ ledger.writeQueue).map logKey)
  small : ∀ p ∈ ledger.readQueue ++ ledger.writeQueue, p.size ≤ params.burstSize.toNat
  below : ∀ p ∈ ledger.writeQueue, p.addr.toNat + p.size < 2 ^ 64

section Shares
variable {helpers : Heap BurstHelper} {slots rest : List (Nat × Option Nat)} {id : Nat} {helper : Option Nat}

/-- The entries that wait for a response, each with its packet and the helper of that.
A helper misses as many bursts as its packet has entries. -/
structure Shares (helpers : Heap BurstHelper) (slots : List (Nat × Option Nat)) : Prop where
  bounded : helpers.Bounded
  same : ∀ id first second, (id, first) ∈ slots → (id, second) ∈ slots → first = second
  own : ∀ id other address, (id, some address) ∈ slots → (other, some address) ∈ slots → id = other
  alone : ∀ id, (id, none) ∈ slots → slots.count (id, none) = 1
  shared : ∀ id address, (id, some address) ∈ slots → ∃ helper, helpers.cell address = some helper ∧
    helper.burstsServiced + slots.count (id, some address) = helper.burstCount

theorem Shares.perm (shares : Shares helpers slots) (perm : slots.Perm rest) : Shares helpers rest := by
  obtain ⟨bounded, same, own, alone, shared⟩ := shares
  refine ⟨bounded, ?_, ?_, ?_, ?_⟩
  · intro id first second member member'
    exact same id first second (perm.mem_iff.mpr member) (perm.mem_iff.mpr member')
  · intro id other address member member'
    exact own id other address (perm.mem_iff.mpr member) (perm.mem_iff.mpr member')
  · intro id member
    rw [← perm.count_eq]
    exact alone id (perm.mem_iff.mpr member)
  · intro id address member
    rw [← perm.count_eq]
    exact shared id address (perm.mem_iff.mpr member)

def Waits (helpers : Heap BurstHelper) (count : Nat) : Option Nat → Prop
  | none => count = 1
  | some address => ∃ helper, helpers.cell address = some helper ∧ helper.burstsServiced + count = helper.burstCount

theorem Shares.waits (shares : Shares helpers slots) (member : (id, helper) ∈ slots) : Waits helpers (slots.count (id, helper)) helper := by
  cases helper with
  | none => exact shares.alone id member
  | some address => exact shares.shared id address member

theorem Shares.intro (bounded : helpers.Bounded) (same : ∀ id first second, (id, first) ∈ slots → (id, second) ∈ slots → first = second)
    (own : ∀ id other address, (id, some address) ∈ slots → (other, some address) ∈ slots → id = other)
    (waits : ∀ id helper, (id, helper) ∈ slots → Waits helpers (slots.count (id, helper)) helper) : Shares helpers slots :=
  ⟨bounded, same, own, fun id => waits id none, fun id address => waits id (some address)⟩

theorem Shares.add {after : Heap BurstHelper} {count : Nat} (shares : Shares helpers slots)
    (fresh : ∀ other, (id, other) ∉ slots) (bounded : after.Bounded)
    (kept : ∀ other address, (other, some address) ∈ slots → after.cell address = helpers.cell address ∧ helper ≠ some address)
    (waits : Waits after count helper) : Shares after (List.replicate count (id, helper) ++ slots) := by
  have new : ∀ {slot : Nat × Option Nat}, slot ∈ List.replicate count (id, helper) ++ slots → slot = (id, helper) ∨ slot ∈ slots := by
    intro slot member
    exact (mem_append.mp member).imp eq_of_mem_replicate fun old => old
  apply Shares.intro bounded
  · intro other first second member member'
    obtain head | member := new member <;> obtain head' | member' := new member'
    · cases head
      cases head'
      rfl
    · cases head
      exact absurd member' (fresh _)
    · cases head'
      exact absurd member (fresh _)
    · exact shares.same other first second member member'
  · intro first second address member member'
    obtain head | old := new member <;> obtain head' | old' := new member'
    · cases head
      cases head'
      rfl
    · cases head
      exact absurd rfl (kept second address old').2
    · cases head'
      exact absurd rfl (kept first address old).2
    · exact shares.own first second address old old'
  · intro other used member
    rw [count_append]
    obtain head | member := new member
    · cases head
      rw [count_replicate_self, count_eq_zero_of_not_mem (fresh _)]
      exact waits
    · have different : (other, used) ∉ List.replicate count (id, helper) := by
        intro replicated
        cases eq_of_mem_replicate replicated
        exact fresh _ member
      rw [count_eq_zero_of_not_mem different, Nat.zero_add]
      have before := shares.waits member
      cases used with
      | none => exact before
      | some address =>
        obtain ⟨held, cell, missing⟩ := before
        exact ⟨held, (kept other address member).1.trans cell, missing⟩

theorem Shares.others (shares : Shares helpers ((id, helper) :: rest)) :
    (∀ other, (id, other) ∈ rest → other = helper) ∧ ∀ other address, (other, some address) ∈ rest → helper = some address → other = id := by
  refine ⟨fun other member => ?_, fun other address member same => ?_⟩
  · exact shares.same id other helper (mem_cons_of_mem _ member) mem_cons_self
  · subst same
    exact shares.own other id address (mem_cons_of_mem _ member) mem_cons_self

theorem Shares.remove {after : Heap BurstHelper} (shares : Shares helpers ((id, helper) :: rest))
    (bounded : after.Bounded) (kept : ∀ address, helper ≠ some address → after.cell address = helpers.cell address)
    (waits : (id, helper) ∈ rest → Waits after (rest.count (id, helper)) helper) : Shares after rest := by
  apply Shares.intro bounded
  · intro other first second member member'
    exact shares.same other first second (mem_cons_of_mem _ member) (mem_cons_of_mem _ member')
  · intro first second address member member'
    exact shares.own first second address (mem_cons_of_mem _ member) (mem_cons_of_mem _ member')
  · intro other used member
    by_cases isSlot : (other, used) = (id, helper)
    · cases isSlot
      exact waits member
    · have before := shares.waits (mem_cons_of_mem _ member)
      rw [count_cons_of_ne (Ne.symm isSlot)] at before
      cases used with
      | none => exact before
      | some address =>
        obtain ⟨held, cell, missing⟩ := before
        refine ⟨held, (kept address ?_).trans cell, missing⟩
        intro shared
        apply isSlot
        rw [shares.others.2 other address member shared, shared]

end Shares

section Ledgers
variable {params : Params} {before : Ledger} {memPkt : MemPacket} {rest : List MemPacket}

def Ledger.counted (before : Ledger) (memPkt : MemPacket) (change : Nat → Nat) : Ledger :=
  { before with
    packetPriorities := update before.packetPriorities memPkt.pkt.requestorId
      (change (before.packetPriorities memPkt.pkt.requestorId))
    requestTimes := update before.requestTimes (memPkt.pkt.requestorId, memPkt.addr)
      (change (before.requestTimes (memPkt.pkt.requestorId, memPkt.addr))) }

section

variable (books : Books params before)
include books

theorem Books.write (memPkt : MemPacket) (room : before.writeQueue.length < params.writeBufferSize)
    (apart : params.burstAlign memPkt.addr ∉ before.isInWriteQueue)
    (fits : memPkt.size ≤ params.burstSize.toNat ∧ memPkt.addr.toNat + memPkt.size < 2 ^ 64) :
    Books params { before.counted memPkt (· + 1) with
      writeQueue := before.writeQueue ++ [memPkt]
      isInWriteQueue := insert (params.burstAlign memPkt.addr) before.isInWriteQueue
      totalWriteQueueSize := before.totalWriteQueueSize + 1
      writeQueueSize := before.writeQueueSize + 1 } where
  reads := books.reads
  totalReads := books.totalReads
  writes := by simp [books.writes]
  totalWrites := by simp [books.totalWrites]
  readRoom := books.readRoom
  writeRoom := by
    simp
    omega
  distinct := by
    rw [books.written, mem_toFinset] at apart
    rw [map_append, nodup_append]
    refine ⟨books.distinct, nodup_singleton _, fun _ member _ single => ?_⟩
    rw [mem_singleton.mp single]
    intro same
    rw [same] at member
    exact apart member
  written := by
    rw [map_append, toFinset_append, ← books.written, Finset.insert_eq, Finset.union_comm]
    rfl
  logged := by
    apply books.logged.grow (logKey memPkt)
    rw [← append_assoc, map_append]
    exact perm_append_singleton _ _
  small := by
    intro p member
    rw [← append_assoc] at member
    obtain old | new := mem_concat.mp member
    · exact books.small p old
    · rw [new]
      exact fits.1
  below := by
    intro p member
    obtain old | new := mem_concat.mp member
    · exact books.below p old
    · rw [new]
      exact fits.2

theorem Books.read (memPkt : MemPacket)
    (room : before.readQueue.length + before.respQueue.length < params.readBufferSize) (fits : memPkt.size ≤ params.burstSize.toNat) :
    Books params { before.counted memPkt (· + 1) with
      readQueue := before.readQueue ++ [memPkt]
      totalReadQueueSize := before.totalReadQueueSize + 1
      readQueueSize := before.readQueueSize + 1 } where
  reads := by simp [books.reads]
  totalReads := by simp [books.totalReads]
  writes := books.writes
  totalWrites := books.totalWrites
  readRoom := by
    simp [Ledger.counted]
    omega
  writeRoom := books.writeRoom
  distinct := books.distinct
  written := books.written
  logged := by
    apply books.logged.grow (logKey memPkt)
    rw [append_assoc]
    exact perm_middle.map logKey
  small := by
    intro p member
    rw [append_assoc, mem_append, singleton_append, mem_cons] at member
    obtain old | new | old := member
    · exact books.small p (mem_append_left _ old)
    · rw [new]
      exact fits
    · exact books.small p (mem_append_right _ old)
  below := books.below

theorem Books.answer (late : MemPacket) (perm : before.readQueue.Perm (memPkt :: rest)) :
    Books params { before.counted memPkt (· - 1) with
      readQueue := rest
      respQueue := before.respQueue ++ [late]
      totalReadQueueSize := before.totalReadQueueSize - 1
      readQueueSize := before.readQueueSize - 1 } := by
  have length := perm.length_eq
  rw [length_cons] at length
  obtain ⟨reads, totalReads, writes, totalWrites, _, writeRoom, distinct, written, logged, small, below⟩ := books
  refine ⟨?_, ?_, writes, totalWrites, ?_, writeRoom, distinct, written, ?_, ?_, below⟩
  · simp [reads, length]
  · simp [totalReads, length]
  · simp
    omega
  · apply logged.shrink (logKey memPkt)
    exact (perm.append_right _).map logKey
  · intro p member
    apply small p
    exact ((perm.append_right _).mem_iff).mpr (mem_cons_of_mem _ member)

theorem Books.issue (perm : before.writeQueue.Perm (memPkt :: rest)) : Books params { before.counted memPkt (· - 1) with
      writeQueue := rest
      isInWriteQueue := before.isInWriteQueue.erase (params.burstAlign memPkt.addr)
      totalWriteQueueSize := before.totalWriteQueueSize - 1
      writeQueueSize := before.writeQueueSize - 1 } := by
  have length := perm.length_eq
  rw [length_cons] at length
  obtain ⟨reads, totalReads, writes, totalWrites, readRoom, _, distinct, written, logged, small, below⟩ := books
  have apart := (perm.map fun p => params.burstAlign p.addr).nodup_iff.mp distinct
  rw [map_cons, nodup_cons] at apart
  have whole : (before.readQueue ++ before.writeQueue).Perm (memPkt :: (before.readQueue ++ rest)) :=
    (perm.append_left _).trans perm_middle
  refine ⟨reads, totalReads, ?_, ?_, readRoom, ?_, apart.2, ?_, ?_, ?_, ?_⟩
  · simp [writes, length]
  · simp [totalWrites, length]
  · dsimp only
    omega
  · rw [written, toFinset_eq_of_perm _ _ (perm.map fun p => params.burstAlign p.addr), map_cons, toFinset_cons, Finset.erase_insert]
    rw [mem_toFinset]
    exact apart.1
  · apply logged.shrink (logKey memPkt)
    exact whole.map logKey
  · intro p member
    apply small p
    exact whole.mem_iff.mpr (mem_cons_of_mem _ member)
  · intro p member
    exact below p (perm.mem_iff.mpr (mem_cons_of_mem _ member))

theorem Books.respond (head : before.respQueue = memPkt :: rest) : Books params { before with respQueue := rest } := by
  obtain ⟨reads, totalReads, writes, totalWrites, readRoom, writeRoom, distinct, written, logged, small, below⟩ := books
  refine ⟨reads, totalReads, writes, totalWrites, ?_, writeRoom, distinct, written, logged, small, below⟩
  rw [head, length_cons] at readRoom
  dsimp only
  omega

end

end Ledgers

end ImcGem5.Mem.Dram.Proofs.Accounting
