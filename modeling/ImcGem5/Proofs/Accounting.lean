import ImcGem5.Proofs.Bursts
import ImcGem5.Proofs.Ledger
import ImcGem5.Proofs.Retries

/-! What the DRAM controller keeps of the packets it accepts, from their bursts to their
answers. Each handler keeps the books and tells the story on, and so no assertion in them
fails. -/

namespace ImcGem5.Mem.Dram.Proofs.Accounting
open Lib Dram.MemCtrl Retries List BitVec Heap

section Taking
variable {params : Params} {incoming : Incoming} {ctrl : MemCtrl} {now : Tick}

theorem accessAndRespond_ok (inside : params.contains incoming.pkt.addr = true) (now staticLatency : Tick) :
    ∃ due, accessAndRespond params now incoming staticLatency =
      .ok (if incoming.pkt.needsResponse then [.responded incoming due] else []) := by
  unfold accessAndRespond
  rw [inside]
  cases needed : incoming.pkt.needsResponse with
  | false => exact ⟨0, rfl⟩
  | true =>
    obtain ⟨turns, isResponse⟩ := Packet.makeResponse_ok needed
    rw [turns]
    dsimp only [Bool.not_true, panicIf_false, ok_bind, Packet.isResponse]
    rw [isResponse]
    exact ⟨_, rfl⟩

structure Unread (ctrl after : MemCtrl) : Prop where
  readQueue : after.readQueue = ctrl.readQueue
  respQueue : after.respQueue = ctrl.respQueue
  helpers : after.helpers = ctrl.helpers
  respondEvent : after.respondEvent = ctrl.respondEvent

theorem addWriteBurst_ok (incoming : Incoming) (labels : List Label) {piece : Addr × Nat} (books : Books params (ledger ctrl))
    (room : ctrl.writeQueue.length < params.writeBufferSize)
    (fits : piece.2 ≤ params.burstSize.toNat ∧ piece.1.toNat + piece.2 < 2 ^ 64) :
    ∃ after found, addWriteBurst params incoming (ctrl, labels) piece =
        .ok (after, labels ++ [.burst incoming piece.1 piece.2 found]) ∧
      Books params (ledger after) ∧ Unread ctrl after ∧ after.writeQueue.length ≤ ctrl.writeQueue.length + 1 := by
  obtain ⟨addr, size⟩ := piece
  unfold addWriteBurst
  dsimp only
  by_cases merged : params.burstAlign addr ∈ ctrl.isInWriteQueue
  · rw [decide_eq_true merged]
    exact ⟨ctrl, true, rfl, books, ⟨rfl, rfl, rfl, rfl⟩, Nat.le_succ _⟩
  · have total : ctrl.totalWriteQueueSize = ctrl.writeQueue.length := books.totalWrites
    have wrote := books.write { readyTime := maxTick, pkt := incoming, addr, size } room merged fits
    have card : (insert (params.burstAlign addr) ctrl.isInWriteQueue).card = ctrl.totalWriteQueueSize + 1 := by
      have distinct := toFinset_card_of_nodup wrote.distinct
      rw [← wrote.written, length_map, length_append, length_singleton] at distinct
      rw [total]
      exact distinct
    rw [decide_eq_false merged, decide_eq_true (by omega)]
    simp only [Bool.not_false, if_true, require_true, ok_bind, logRequest, card, beq_self_eq_true]
    refine ⟨_, false, rfl, wrote, ⟨rfl, rfl, rfl, rfl⟩, ?_⟩
    simp

theorem addWriteBursts_ok (incoming : Incoming) (labels : List Label) {pieces : List (Addr × Nat)} (books : Books params (ledger ctrl))
    (room : ctrl.writeQueue.length + pieces.length ≤ params.writeBufferSize)
    (fits : ∀ piece ∈ pieces, piece.2 ≤ params.burstSize.toNat ∧ piece.1.toNat + piece.2 < 2 ^ 64) :
    ∃ after made, pieces.foldlM (addWriteBurst params incoming) (ctrl, labels) = .ok (after, labels ++ burstLabels incoming made) ∧
      made.map Prod.fst = pieces ∧ Books params (ledger after) ∧ Unread ctrl after := by
  induction pieces generalizing ctrl labels with
  | nil =>
    refine ⟨ctrl, [], ?_, rfl, books, rfl, rfl, rfl, rfl⟩
    rw [show burstLabels incoming [] = [] from rfl, append_nil]
    rfl
  | cons piece _ ih =>
    rw [length_cons] at room
    obtain ⟨_, found, first, kept, same, _⟩ :=
      addWriteBurst_ok incoming labels books (by omega) (fits piece mem_cons_self)
    obtain ⟨after, made, rest, whole, balanced, unread⟩ :=
      ih (labels ++ [.burst incoming piece.1 piece.2 found]) kept (by omega)
        (fun other member => fits other (mem_cons_of_mem _ member))
    refine ⟨after, (piece, found) :: made, ?_, congrArg _ whole, balanced, ?_⟩
    · rw [foldlM_cons, first, ok_bind, rest, List.append_assoc]
      rfl
    · exact ⟨unread.readQueue.trans same.readQueue, unread.respQueue.trans same.respQueue, unread.helpers.trans same.helpers,
        unread.respondEvent.trans same.respondEvent⟩

def uncovered (params : Params) (ctrl : MemCtrl) (pieces : List (Addr × Nat)) : List (Addr × Nat) :=
  pieces.filter fun piece => !foundInWrQ params ctrl piece.1 piece.2

def entry (incoming : Incoming) (burstHelper : Option Nat) (piece : Addr × Nat) : MemPacket :=
  { readyTime := maxTick, pkt := incoming, addr := piece.1, size := piece.2, burstHelper }

def sharedHelper (ctrl : MemCtrl) (pktCount : Nat) : Option Nat := if pktCount > 1 then some ctrl.helpers.next else none

/-- After some bursts of a read: those no write covers are queued. -/
structure Loop (params : Params) (ctrl : MemCtrl) (incoming : Incoming) (pktCount : Nat) (taken : List (Addr × Nat))
    (reading : Reading) : Prop where
  books : Books params (ledger reading.ctrl)
  writeQueue : reading.ctrl.writeQueue = ctrl.writeQueue
  isInWriteQueue : reading.ctrl.isInWriteQueue = ctrl.isInWriteQueue
  respQueue : reading.ctrl.respQueue = ctrl.respQueue
  respondEvent : reading.ctrl.respondEvent = ctrl.respondEvent
  readQueue : reading.ctrl.readQueue =
    ctrl.readQueue ++ (uncovered params ctrl taken).map (entry incoming (sharedHelper ctrl pktCount))
  burstHelper : reading.burstHelper = if uncovered params ctrl taken = [] then none else sharedHelper ctrl pktCount
  helpers : reading.ctrl.helpers = if uncovered params ctrl taken = [] ∨ pktCount ≤ 1 then ctrl.helpers
    else (ctrl.helpers.alloc { burstCount := pktCount }).1
  serviced : reading.pktsServicedByWrQ + (uncovered params ctrl taken).length = taken.length
  labels : reading.labels = burstLabels incoming (taken.map fun piece => (piece, foundInWrQ params ctrl piece.1 piece.2))

theorem loop_start (incoming : Incoming) (pktCount : Nat) (books : Books params (ledger ctrl)) :
    Loop params ctrl incoming pktCount [] { ctrl } :=
  ⟨books, rfl, rfl, rfl, rfl, (append_nil _).symm, rfl, rfl, rfl, rfl⟩

theorem addReadBurst_ok {pktCount : Nat} {taken : List (Addr × Nat)} {reading : Reading} {piece : Addr × Nat}
    (loop : Loop params ctrl incoming pktCount taken reading)
    (room : reading.ctrl.readQueue.length + reading.ctrl.respQueue.length < params.readBufferSize)
    (small : piece.2 ≤ params.burstSize.toNat) :
    ∃ after, addReadBurst params incoming pktCount reading piece = .ok after ∧
      Loop params ctrl incoming pktCount (taken ++ [piece]) after ∧
      after.ctrl.readQueue.length ≤ reading.ctrl.readQueue.length + 1 := by
  obtain ⟨books, writeQueue, isInWriteQueue, respQueue, respondEvent, readQueue, burstHelper, helpers, _, labels⟩ := loop
  obtain ⟨addr, size⟩ := piece
  have found : foundInWrQ params reading.ctrl addr size = foundInWrQ params ctrl addr size := by
    unfold foundInWrQ
    rw [writeQueue, isInWriteQueue]
  unfold addReadBurst
  dsimp only
  rw [found]
  cases covered : foundInWrQ params ctrl addr size with
  | true =>
    have same : uncovered params ctrl (taken ++ [(addr, size)]) = uncovered params ctrl taken := by
      simp [uncovered, covered]
    refine ⟨_, rfl, ?_, Nat.le_succ _⟩
    refine ⟨books, writeQueue, isInWriteQueue, respQueue, respondEvent, ?_, ?_, ?_, ?_, ?_⟩
    · rw [same]
      exact readQueue
    · rw [same]
      exact burstHelper
    · rw [same]
      exact helpers
    · rw [same, length_append, length_singleton]
      dsimp only
      omega
    · simp [labels, burstLabels, covered]
  | false =>
    have more : uncovered params ctrl (taken ++ [(addr, size)]) = uncovered params ctrl taken ++ [(addr, size)] := by
      simp [uncovered, covered]
    have total : reading.ctrl.totalReadQueueSize = reading.ctrl.readQueue.length := books.totalReads
    -- the helper is there already, or this is the first entry
    have given : (if (decide (pktCount > 1) && reading.burstHelper.isNone) = true then
        ((reading.ctrl.helpers.alloc { burstCount := pktCount }).1, some (reading.ctrl.helpers.alloc { burstCount := pktCount }).2)
        else (reading.ctrl.helpers, reading.burstHelper)) =
        (if pktCount ≤ 1 then ctrl.helpers else (ctrl.helpers.alloc { burstCount := pktCount }).1, sharedHelper ctrl pktCount) := by
      rw [burstHelper, helpers, sharedHelper]
      by_cases several : pktCount > 1 <;> by_cases first : uncovered params ctrl taken = []
      · simp [several, first, Nat.not_le.mpr several]
      · simp [several, first, Nat.not_le.mpr several]
      · simp [several, first, Nat.not_lt.mp several]
      · simp [several, first, Nat.not_lt.mp several]
    rw [given]
    simp only [Bool.false_eq_true, if_false]
    have free : readQueueFull params { reading.ctrl with
        helpers := if pktCount ≤ 1 then ctrl.helpers else (ctrl.helpers.alloc { burstCount := pktCount }).1 } 1 = false := by
      unfold readQueueFull
      rw [decide_eq_false_iff_not]
      dsimp only
      omega
    rw [free]
    refine ⟨_, rfl, ?_, ?_⟩
    · refine ⟨books.read (entry incoming (sharedHelper ctrl pktCount) (addr, size)) room small, writeQueue, isInWriteQueue, respQueue,
        respondEvent, ?_, ?_, ?_, ?_, ?_⟩
      · show reading.ctrl.readQueue ++ [_] = _
        rw [more, readQueue, map_append, List.append_assoc]
        rfl
      · rw [more, if_neg (append_ne_nil_of_right_ne_nil _ (cons_ne_nil _ _))]
      · rw [more]
        show (if pktCount ≤ 1 then _ else _) = _
        simp
      · rw [more, length_append, length_append, length_singleton]
        dsimp only
        omega
      · simp [labels, burstLabels, covered]
    · simp [logRequest]

theorem addReadBursts_ok {pktCount : Nat} {taken pieces : List (Addr × Nat)} {reading : Reading}
    (loop : Loop params ctrl incoming pktCount taken reading)
    (room : reading.ctrl.readQueue.length + reading.ctrl.respQueue.length + pieces.length ≤ params.readBufferSize)
    (small : ∀ piece ∈ pieces, piece.2 ≤ params.burstSize.toNat) :
    ∃ after, pieces.foldlM (addReadBurst params incoming pktCount) reading = .ok after ∧
      Loop params ctrl incoming pktCount (taken ++ pieces) after := by
  induction pieces generalizing taken reading with
  | nil =>
    rw [append_nil]
    exact ⟨reading, rfl, loop⟩
  | cons piece _ ih =>
    rw [length_cons] at room
    obtain ⟨middle, first, further, _⟩ := addReadBurst_ok loop (by omega) (small piece mem_cons_self)
    have same : middle.ctrl.respQueue = reading.ctrl.respQueue := further.respQueue.trans loop.respQueue.symm
    obtain ⟨after, rest, ended⟩ := ih further (by rw [same]; omega) (fun other member => small other (mem_cons_of_mem _ member))
    rw [List.append_assoc] at ended
    refine ⟨after, ?_, ended⟩
    rw [foldlM_cons, first, ok_bind, rest]

end Taking

def slots (entries : List MemPacket) : List (Nat × Option Nat) := entries.map fun p => (p.pkt.pkt.id, p.burstHelper)

def pending (entries : List MemPacket) : List (Incoming × Addr) := entries.map fun p => (p.pkt, p.addr)

/-- The invariant: counters, helper shares and the story of every packet. -/
structure Accounts (params : Params) (ctrl : MemCtrl) (labels : List Label) : Prop where
  books : Books params (ledger ctrl)
  shares : Shares ctrl.helpers (slots (ctrl.readQueue ++ ctrl.respQueue))
  story : Story params labels (pending (ctrl.readQueue ++ ctrl.respQueue))
  inside : ∀ p ∈ ctrl.readQueue ++ ctrl.respQueue, params.contains p.pkt.pkt.addr = true
  same : ∀ p ∈ ctrl.readQueue ++ ctrl.respQueue, ∀ q ∈ ctrl.readQueue ++ ctrl.respQueue, p.pkt.pkt.id = q.pkt.pkt.id → p.pkt = q.pkt
  sorted : ctrl.respQueue.Pairwise fun p later => p.readyTime ≤ later.readyTime
  due : ctrl.respondEvent = ctrl.respQueue.head?.map MemPacket.readyTime

/-- A burst of a read that counts as found is in an entry of the write queue. -/
def Covered (ctrl : MemCtrl) (labels : List Label) : Prop :=
  ∀ incoming addr size, .burst incoming addr size true ∈ labels → incoming.pkt.isWrite = false →
    ∃ p ∈ ctrl.writeQueue, p.addr.toNat ≤ addr.toNat ∧ addr.toNat + size ≤ p.addr.toNat + p.size

variable {ctrl : MemCtrl}

theorem covered_of_none {labels : List Label} (none : madeOf labels = []) : Covered ctrl labels := by
  intro incoming addr size member
  have made : (incoming, addr, size) ∈ madeOf labels := mem_filterMap.mpr ⟨_, member, rfl⟩
  rw [none] at made
  cases made

section Receiving
variable {params : Params} {incoming : Incoming} {ctrl : MemCtrl} {now : Tick} {past : List Label} {k : Nat}

theorem wake_total (now : Tick) (ctrl : MemCtrl) : ∃ nextReqEvent, ctrl.wake now = .ok { ctrl with nextReqEvent } := by
  unfold wake
  split
  next none =>
    refine ⟨some now, ?_⟩
    simp [schedule, none]
  next => exact ⟨ctrl.nextReqEvent, rfl⟩

/-- A read or write of fresh id that lies inside the range. -/
structure Offered (params : Params) (ctrl : MemCtrl) (incoming : Incoming) : Prop where
  readOrWrite : (incoming.pkt.isRead || incoming.pkt.isWrite) = true
  noCache : incoming.pkt.cacheResponding = false
  inside : params.contains incoming.pkt.addr = true
  some : incoming.pkt.size ≠ 0
  unsigned : incoming.pkt.size < 2 ^ 32
  fresh : ∀ p ∈ ctrl.readQueue ++ ctrl.respQueue, p.pkt.pkt.id ≠ incoming.pkt.id

theorem Offered.size (offered : Offered params ctrl incoming) : (incoming.size != 0) = true := by
  rw [bne_iff_ne]
  intro zero
  apply offered.some
  have := congrArg BitVec.toNat zero
  rwa [Incoming.size, toNat_ofNat, Nat.mod_eq_of_lt offered.unsigned] at this

theorem Offered.fresh_pending (offered : Offered params ctrl incoming) :
    ∀ burst ∈ pending (ctrl.readQueue ++ ctrl.respQueue), burst.1.pkt.id ≠ incoming.pkt.id := by
  intro burst member
  obtain ⟨p, queued, rfl⟩ := mem_map.mp member
  exact offered.fresh p queued

theorem recvWrite_ok (burst : Burst params k) (accounts : Accounts params ctrl past) (offered : Offered params ctrl incoming)
    (fits : Fits params incoming) (isWrite : incoming.pkt.isWrite = true) :
    ∃ after labels, ctrl.recvTimingReq params now incoming = .ok (after, labels) ∧ Accounts params after (past ++ labels) ∧
      Covered ctrl labels := by
  obtain ⟨books, shares, story, inside, same, sorted, due⟩ := accounts
  unfold recvTimingReq
  rw [offered.noCache, offered.readOrWrite, offered.inside, offered.size, isWrite]
  simp only [panicIf_false, Bool.not_true, ok_bind, if_true, require_true]
  split
  next full =>
    refine ⟨_, _, rfl, ⟨books, shares, story.quiet ?_ (List.Perm.refl _), inside, same, sorted, due⟩, covered_of_none rfl⟩
    intro label member
    rw [mem_singleton.mp member]
    rfl
  next room =>
    have room : ctrl.writeQueue.length + (bursts params incoming).length ≤ params.writeBufferSize := by
      have total : ctrl.totalWriteQueueSize = ctrl.writeQueue.length := books.totalWrites
      rw [bursts, length_burstsFrom]
      simp only [writeQueueFull, decide_eq_true_eq] at room
      omega
    obtain ⟨after, made, loops, whole, balanced, readQueue, respQueue, helpers, respondEvent⟩ :=
      addWriteBursts_ok incoming [] books room (mem_bursts burst fits offered.some)
    obtain ⟨when, responds⟩ := accessAndRespond_ok offered.inside now params.frontendLatency
    obtain ⟨_, wakes⟩ := wake_total now after
    have runs : ctrl.addToWriteQueue params now incoming (packetCount params incoming) = .ok (after,
        burstLabels incoming made ++ if incoming.pkt.needsResponse then [.responded incoming when] else []) := by
      unfold addToWriteQueue
      rw [isWrite]
      simp only [require_true, ok_bind]
      rw [show burstsFrom params incoming (packetCount params incoming) incoming.pkt.addr = bursts params incoming from rfl, loops,
        ok_bind, responds]
      rfl
    rw [runs]
    dsimp only [ok_bind]
    rw [wakes]
    have nothing : waiting incoming made = [] := if_pos isWrite
    have told := story.accept when (bursts_tile burst fits offered.some) whole (fun _ => offered.fresh_pending)
      (.of_eq (congrArg (· ++ _) nothing))
    rw [nothing, isEmpty_nil, Bool.and_true] at told
    refine ⟨_, _, rfl, ⟨balanced, ?_, ?_, ?_, ?_, ?_, ?_⟩, ?_⟩
    · show Shares after.helpers (slots (after.readQueue ++ after.respQueue))
      rw [helpers, readQueue, respQueue]
      exact shares
    · show Story params _ (pending (after.readQueue ++ after.respQueue))
      rw [readQueue, respQueue]
      exact told
    · show ∀ p ∈ after.readQueue ++ after.respQueue, _
      rw [readQueue, respQueue]
      exact inside
    · show ∀ p ∈ after.readQueue ++ after.respQueue, ∀ q ∈ after.readQueue ++ after.respQueue, _
      rw [readQueue, respQueue]
      exact same
    · show after.respQueue.Pairwise _
      rw [respQueue]
      exact sorted
    · show after.respondEvent = after.respQueue.head?.map _
      rw [respondEvent, respQueue]
      exact due
    · intro other addr size member isRead
      exfalso
      obtain ⟨same, _⟩ := mem_acceptLabels member
      rw [same, isWrite] at isRead
      cases isRead

theorem foundInWrQ_covers {addr : Addr} {size : Nat} (books : Books params (ledger ctrl)) (below : addr.toNat + size < 2 ^ 64)
    (found : foundInWrQ params ctrl addr size = true) :
    ∃ p ∈ ctrl.writeQueue, p.addr.toNat ≤ addr.toNat ∧ addr.toNat + size ≤ p.addr.toNat + p.size := by
  obtain ⟨_, found⟩ := Bool.and_eq_true_iff.mp found
  obtain ⟨p, member, holds⟩ := any_eq_true.mp found
  have ends := books.below p member
  obtain ⟨start, stop⟩ := Bool.and_eq_true_iff.mp holds
  have start := of_decide_eq_true start
  have stop := of_decide_eq_true stop
  rw [le_def] at start stop
  rw [toNat_add, toNat_add, toNat_ofNat, toNat_ofNat, Nat.add_mod_mod, Nat.add_mod_mod,
    Nat.mod_eq_of_lt below, Nat.mod_eq_of_lt ends] at stop
  exact ⟨p, member, start, stop⟩

def lookedUp (params : Params) (ctrl : MemCtrl) (pieces : List (Addr × Nat)) : List ((Addr × Nat) × Bool) :=
  pieces.map fun piece => (piece, foundInWrQ params ctrl piece.1 piece.2)

theorem waiting_lookedUp (isRead : incoming.pkt.isWrite = false) (helper : Option Nat) (pieces : List (Addr × Nat)) :
    waiting incoming (lookedUp params ctrl pieces) = pending ((uncovered params ctrl pieces).map (entry incoming helper)) := by
  rw [waiting, isRead, if_neg Bool.false_ne_true, lookedUp, filter_map, map_map, pending, map_map]
  rfl

theorem slots_entries (helper : Option Nat) (pieces : List (Addr × Nat)) :
    slots (pieces.map (entry incoming helper)) = List.replicate pieces.length (incoming.pkt.id, helper) := by
  rw [slots, map_map]
  exact map_eq_replicate_iff.mpr fun _ _ => rfl

theorem queued_perm (readQueue new respQueue : List MemPacket) :
    (new ++ (readQueue ++ respQueue)).Perm (readQueue ++ new ++ respQueue) := by
  rw [← List.append_assoc]
  exact perm_append_comm.append_right respQueue

theorem slots_perm (helper : Option Nat) (pieces : List (Addr × Nat)) (readQueue respQueue : List MemPacket) :
    (List.replicate pieces.length (incoming.pkt.id, helper) ++ slots (readQueue ++ respQueue)).Perm
      (slots (readQueue ++ pieces.map (entry incoming helper) ++ respQueue)) := by
  rw [← slots_entries, slots, slots, ← map_append]
  exact (queued_perm readQueue _ respQueue).map _

theorem packetCount_ne_zero (burst : Burst params k) (fits : Fits params incoming) (some : incoming.pkt.size ≠ 0) :
    packetCount params incoming ≠ 0 := by
  intro zero
  have tiles := bursts_tile burst fits some
  rw [bursts, zero] at tiles
  have ends : incoming.pkt.addr.toNat = incoming.pkt.addr.toNat + incoming.pkt.size := tiles
  omega

structure Queues (params : Params) (ctrl after : MemCtrl) (incoming : Incoming) : Prop where
  books : Books params (ledger after)
  respQueue : after.respQueue = ctrl.respQueue
  respondEvent : after.respondEvent = ctrl.respondEvent
  readQueue : after.readQueue = ctrl.readQueue ++ (uncovered params ctrl (bursts params incoming)).map
    (entry incoming (sharedHelper ctrl (packetCount params incoming)))
  shares : Shares after.helpers (slots (after.readQueue ++ after.respQueue))

theorem addToReadQueue_ok (now : Tick) (burst : Burst params k) (accounts : Accounts params ctrl past) (offered : Offered params ctrl incoming)
    (fits : Fits params incoming) (isRead : incoming.pkt.isWrite = false)
    (room : ctrl.readQueue.length + ctrl.respQueue.length + packetCount params incoming ≤ params.readBufferSize) :
    ∃ after due, ctrl.addToReadQueue params now incoming (packetCount params incoming) =
        .ok (after, (uncovered params ctrl (bursts params incoming)).isEmpty,
          burstLabels incoming (lookedUp params ctrl (bursts params incoming)) ++
            if incoming.pkt.needsResponse && (uncovered params ctrl (bursts params incoming)).isEmpty then [.responded incoming due] else []) ∧
      Queues params ctrl after incoming := by
  have length : (bursts params incoming).length = packetCount params incoming := length_burstsFrom _ _ _ _
  have positive := packetCount_ne_zero burst fits offered.some
  obtain ⟨reading, loops, loop⟩ := addReadBursts_ok
    (loop_start incoming (packetCount params incoming) accounts.books) (by rw [length]; exact room)
    (fun piece member => (mem_bursts burst fits offered.some piece member).1)
  obtain ⟨due, responds⟩ := accessAndRespond_ok offered.inside now params.frontendLatency
  rw [nil_append] at loop
  unfold addToReadQueue
  rw [show burstsFrom params incoming (packetCount params incoming) incoming.pkt.addr = bursts params incoming from rfl, loops, isRead,
    bne_iff_ne.mpr positive]
  dsimp only [Bool.not_false, require_true, ok_bind]
  have serviced := loop.serviced
  rw [length] at serviced
  cases some : uncovered params ctrl (bursts params incoming) with
  | nil =>
    rw [some, length_nil, Nat.add_zero] at serviced
    rw [if_pos serviced, responds]
    refine ⟨reading.ctrl, due, ?_, loop.books, loop.respQueue, loop.respondEvent, loop.readQueue, ?_⟩
    · rw [loop.labels, isEmpty_nil, Bool.and_true]
      rfl
    · rw [loop.helpers, loop.readQueue, loop.respQueue, some, if_pos (.inl rfl), map_nil, append_nil]
      exact accounts.shares
  | cons =>
    rw [some, length_cons] at serviced
    rw [if_neg (by omega)]
    have notNone : ¬ (uncovered params ctrl (bursts params incoming) = []) := by
      rw [some]
      exact cons_ne_nil _ _
    have given := loop.burstHelper
    rw [if_neg notNone] at given
    have fresh : ∀ other, (incoming.pkt.id, other) ∉ slots (ctrl.readQueue ++ ctrl.respQueue) := by
      intro other member
      obtain ⟨p, member, same⟩ := mem_map.mp member
      exact offered.fresh p member (congrArg Prod.fst same)
    rw [given]
    by_cases several : packetCount params incoming ≤ 1
    · rw [sharedHelper, if_neg (by omega)]
      refine ⟨reading.ctrl, 0, ?_, loop.books, loop.respQueue, loop.respondEvent, loop.readQueue, ?_⟩
      · rw [loop.labels, isEmpty_cons, Bool.and_false, if_neg Bool.false_ne_true, append_nil]
        rfl
      · have single : Shares ctrl.helpers (List.replicate 1 (incoming.pkt.id, none) ++ slots (ctrl.readQueue ++ ctrl.respQueue)) :=
          accounts.shares.add fresh accounts.shares.bounded (fun _ _ _ => ⟨rfl, nofun⟩) rfl
        rw [loop.readQueue, loop.respQueue, loop.helpers, if_pos (.inr several), sharedHelper, if_neg (by omega)]
        apply single.perm
        have one : (uncovered params ctrl (bursts params incoming)).length = 1 := by
          rw [some, length_cons]
          omega
        rw [← one]
        exact slots_perm none _ _ _
    · rw [sharedHelper, if_pos (by omega)]
      have helpers := loop.helpers
      rw [if_neg (not_or.mpr ⟨notNone, several⟩)] at helpers
      have cell : reading.ctrl.helpers.cell ctrl.helpers.next = .some { burstCount := packetCount params incoming } := by
        rw [helpers, alloc_cell, if_pos rfl]
      dsimp only
      rw [modify_of_cell cell]
      refine ⟨{ reading.ctrl with
        helpers := reading.ctrl.helpers.write ctrl.helpers.next
          { burstCount := packetCount params incoming, burstsServiced := reading.pktsServicedByWrQ } }, 0, ?_, loop.books,
        loop.respQueue, loop.respondEvent, loop.readQueue, ?_⟩
      · rw [loop.labels, isEmpty_cons, Bool.and_false, if_neg Bool.false_ne_true, append_nil]
        rfl
      · rw [loop.readQueue, loop.respQueue, sharedHelper, if_pos (by omega)]
        apply Shares.perm _ (slots_perm _ _ _ _)
        apply accounts.shares.add fresh
        · intro address object held
          rw [helpers, write_cell, alloc_cell] at held
          rw [helpers, write_next, alloc_next]
          split at held
          · omega
          · have := accounts.shares.bounded address object held
            omega
        · intro other address member
          obtain ⟨helper, held, _⟩ := accounts.shares.shared other address member
          have before := accounts.shares.bounded address helper held
          rw [helpers, write_cell, alloc_cell, if_neg (by omega), if_neg (by omega)]
          refine ⟨rfl, ?_⟩
          intro same
          cases same
          omega
        · refine ⟨_, by rw [write_cell, if_pos rfl], ?_⟩
          rw [some, length_cons]
          exact serviced

theorem recvRead_ok (burst : Burst params k) (accounts : Accounts params ctrl past) (offered : Offered params ctrl incoming)
    (fits : Fits params incoming) (isRead : incoming.pkt.isWrite = false) :
    ∃ after labels, ctrl.recvTimingReq params now incoming = .ok (after, labels) ∧ Accounts params after (past ++ labels) ∧
      Covered ctrl labels := by
  have reads : incoming.pkt.isRead = true := by
    have either := offered.readOrWrite
    rwa [isRead, Bool.or_false] at either
  unfold recvTimingReq
  rw [offered.noCache, offered.inside, offered.size, isRead, reads]
  simp only [panicIf_false, Bool.not_true, Bool.or_false, ok_bind, Bool.false_eq_true, if_false, require_true]
  split
  next full =>
    obtain ⟨books, shares, story, inside, same, sorted, due⟩ := accounts
    refine ⟨_, _, rfl, ⟨books, shares, story.quiet ?_ (List.Perm.refl _), inside, same, sorted, due⟩, covered_of_none rfl⟩
    intro label member
    rw [mem_singleton.mp member]
    rfl
  next room =>
    have room : ctrl.readQueue.length + ctrl.respQueue.length + packetCount params incoming ≤ params.readBufferSize := by
      have total : ctrl.totalReadQueueSize = ctrl.readQueue.length := accounts.books.totalReads
      simp only [readQueueFull, decide_eq_true_eq] at room
      omega
    obtain ⟨middle, when, runs, balanced, respQueue, respondEvent, readQueue, shares⟩ :=
      addToReadQueue_ok now burst accounts offered fits isRead room
    rw [runs]
    dsimp only [ok_bind]
    obtain ⟨nextReqEvent, continues⟩ : ∃ nextReqEvent, (if (uncovered params ctrl (bursts params incoming)).isEmpty = true then
        .ok middle else middle.wake now) = .ok { middle with nextReqEvent } := by
      split
      · exact ⟨middle.nextReqEvent, rfl⟩
      · exact wake_total now middle
    rw [continues]
    have whole : (lookedUp params ctrl (bursts params incoming)).map Prod.fst = bursts params incoming := by
      rw [lookedUp, map_map]
      exact map_id _
    have waits : waiting incoming (lookedUp params ctrl (bursts params incoming)) = _ :=
      waiting_lookedUp isRead (sharedHelper ctrl (packetCount params incoming)) (bursts params incoming)
    have moves : (waiting incoming (lookedUp params ctrl (bursts params incoming)) ++ pending (ctrl.readQueue ++ ctrl.respQueue)).Perm
        (pending (middle.readQueue ++ middle.respQueue)) := by
      rw [waits, readQueue, respQueue, pending, pending, ← map_append]
      exact (queued_perm _ _ _).map _
    have told := accounts.story.accept when (bursts_tile burst fits offered.some) whole (fun _ => offered.fresh_pending) moves
    have empty : (waiting incoming (lookedUp params ctrl (bursts params incoming))).isEmpty =
        (uncovered params ctrl (bursts params incoming)).isEmpty := by
      rw [waits, pending, isEmpty_map, isEmpty_map]
    rw [empty] at told
    have queued : ∀ p ∈ middle.readQueue ++ middle.respQueue, p.pkt = incoming ∨ p ∈ ctrl.readQueue ++ ctrl.respQueue := by
      intro p member
      rw [readQueue, respQueue] at member
      obtain new | old := mem_append.mp ((queued_perm _ _ _).mem_iff.mpr member)
      · obtain ⟨piece, _, rfl⟩ := mem_map.mp new
        exact .inl rfl
      · exact .inr old
    refine ⟨_, _, rfl, ⟨balanced, shares, told, ?_, ?_, ?_, ?_⟩, ?_⟩
    · intro p member
      obtain new | old := queued p member
      · rw [new]
        exact offered.inside
      · exact accounts.inside p old
    · intro p member q member' same
      obtain new | old := queued p member <;> obtain new' | old' := queued q member'
      · rw [new, new']
      · rw [new] at same
        exact absurd same.symm (offered.fresh q old')
      · rw [new'] at same
        exact absurd same (offered.fresh p old)
      · exact accounts.same p old q old' same
    · show middle.respQueue.Pairwise _
      rw [respQueue]
      exact accounts.sorted
    · show middle.respondEvent = middle.respQueue.head?.map _
      rw [respondEvent, respQueue]
      exact accounts.due
    · intro other addr size member _
      obtain ⟨_, made⟩ := mem_acceptLabels member
      obtain ⟨piece, isBurst, same⟩ := mem_map.mp made
      obtain ⟨rfl, found⟩ := Prod.mk.inj same
      exact foundInWrQ_covers accounts.books (mem_bursts burst fits offered.some _ isBurst).2 found

end Receiving

section Responding
variable {params : Params} {memPkt : MemPacket} {past : List Label}

theorem completeBurst_total (ctrl : MemCtrl) (now : Tick) {rest : List (Nat × Option Nat)}
    (shares : Shares ctrl.helpers ((memPkt.pkt.pkt.id, memPkt.burstHelper) :: rest))
    (inside : params.contains memPkt.pkt.pkt.addr = true) :
    ∃ helpers due last, ctrl.completeBurst params now memPkt = .ok ({ ctrl with helpers },
        if last && memPkt.pkt.pkt.needsResponse then [.responded memPkt.pkt due] else []) ∧
      (last = true ↔ ∀ helper, (memPkt.pkt.pkt.id, helper) ∉ rest) ∧ Shares helpers rest := by
  obtain ⟨due, responds⟩ := accessAndRespond_ok inside now (params.frontendLatency + params.backendLatency)
  have waits := shares.waits mem_cons_self
  rw [count_cons_self] at waits
  have gone : (memPkt.pkt.pkt.id, memPkt.burstHelper) ∉ rest → ∀ helper, (memPkt.pkt.pkt.id, helper) ∉ rest := by
    intro absent helper member
    have same := shares.others.1 helper member
    rw [same] at member
    exact absent member
  unfold completeBurst
  cases shared : memPkt.burstHelper with
  | none =>
    rw [shared] at shares waits gone
    have absent : (memPkt.pkt.pkt.id, none) ∉ rest := by
      apply count_eq_zero.mp
      have : rest.count (memPkt.pkt.pkt.id, none) + 1 = 1 := waits
      omega
    refine ⟨ctrl.helpers, due, true, ?_, iff_of_true rfl (gone absent), ?_⟩
    · rw [responds]
      rfl
    · exact shares.remove shares.bounded (fun _ _ => rfl) fun member => absurd member absent
  | some address =>
    rw [shared] at shares waits gone
    obtain ⟨helper, held, _⟩ := waits
    have counted : (ctrl.helpers.write address { helper with burstsServiced := helper.burstsServiced + 1 }).cell address =
        some { helper with burstsServiced := helper.burstsServiced + 1 } := by
      rw [write_cell, if_pos rfl]
    have bounded : ∀ place object, (ctrl.helpers.write address { helper with burstsServiced := helper.burstsServiced + 1 }).cell place =
        some object → place < ctrl.helpers.next := by
      intro place object found
      rw [write_cell] at found
      split at found
      next same =>
        rw [same]
        exact shares.bounded address helper held
      · exact shares.bounded place object found
    dsimp only
    rw [modify_of_cell held]
    dsimp only [Except.mapError, ok_bind]
    rw [read_of_cell counted]
    dsimp only [ok_bind]
    by_cases last : helper.burstsServiced + 1 = helper.burstCount
    · have absent : (memPkt.pkt.pkt.id, some address) ∉ rest := by
        apply count_eq_zero.mp
        omega
      rw [if_pos last, responds]
      refine ⟨_, due, true, rfl, iff_of_true rfl (gone absent), ?_⟩
      apply shares.remove _ _ fun member => absurd member absent
      · intro place object found
        rw [free_cell] at found
        split at found
        · cases found
        · exact bounded place object found
      · intro place other
        have apart : place ≠ address := fun same => other (congrArg some same.symm)
        rw [free_cell, if_neg apart, write_cell, if_neg apart]
    · have present : (memPkt.pkt.pkt.id, some address) ∈ rest := by
        apply count_pos_iff.mp
        omega
      rw [if_neg last]
      refine ⟨_, due, false, rfl, iff_of_false Bool.false_ne_true fun absent => absent _ present, ?_⟩
      apply shares.remove bounded
      · intro place other
        rw [write_cell, if_neg fun same => other (congrArg some same.symm)]
      · intro _
        refine ⟨_, counted, ?_⟩
        dsimp only
        omega

theorem processRespondEvent_ok (ctrl : MemCtrl) {now : Tick} (allIntfDrained : Bool) {rest : List MemPacket} {helpers : Heap BurstHelper} {answer : List Label}
    (queue : ctrl.respQueue = memPkt :: rest) (fired : ctrl.respondEvent = none) (later : ∀ front ∈ rest, now ≤ front.readyTime)
    (completes : ctrl.completeBurst params now memPkt = .ok ({ ctrl with helpers }, answer)) :
    ∃ draining retryRdReq quiet, ctrl.processRespondEvent params now allIntfDrained = .ok ({ ctrl with
        respQueue := rest
        respondEvent := rest.head?.map MemPacket.readyTime
        helpers
        draining
        retryRdReq }, [.served memPkt.pkt memPkt.addr] ++ answer ++ quiet) ∧ ∀ label ∈ quiet, Quiet label = true := by
  -- a retry to a waiting requestor comes last
  have retries : ∀ (middle : MemCtrl) (labels : List Label), ∃ retryRdReq quiet,
      (if middle.retryRdReq = true then Except.ok ({ middle with retryRdReq := false }, labels ++ [.sentRetry]) else .ok (middle, labels)) =
        (.ok ({ middle with retryRdReq }, labels ++ quiet) : Except Abort _) ∧ ∀ label ∈ quiet, Quiet label = true := by
    intro middle labels
    split
    · refine ⟨false, [.sentRetry], rfl, fun label member => ?_⟩
      rw [mem_singleton.mp member]
      rfl
    · exact ⟨middle.retryRdReq, [], by rw [append_nil], fun _ member => by cases member⟩
  unfold processRespondEvent
  rw [queue]
  dsimp only
  rw [completes, ok_bind]
  rw [fired]
  cases rest with
  | cons front others =>
    have soon : schedule now none front.readyTime = .ok (some front.readyTime) := by
      simp [schedule, later front mem_cons_self]
    dsimp only
    rw [decide_eq_true (later front mem_cons_self), soon]
    obtain ⟨retryRdReq, quiet, ends, silent⟩ := retries { ctrl with
      respQueue := front :: others
      respondEvent := some front.readyTime
      helpers } (.served memPkt.pkt memPkt.addr :: answer ++ [])
    refine ⟨ctrl.draining, retryRdReq, [] ++ quiet, ?_, silent⟩
    rw [← List.append_assoc]
    exact ends
  | nil =>
    dsimp only
    split
    · obtain ⟨retryRdReq, quiet, ends, silent⟩ := retries { ctrl with
        respQueue := []
        respondEvent := none
        draining := false
        helpers } (.served memPkt.pkt memPkt.addr :: answer ++ [.drainDone])
      refine ⟨false, retryRdReq, [.drainDone] ++ quiet, ?_, fun label member => ?_⟩
      · rw [← List.append_assoc]
        exact ends
      · obtain member | member := mem_append.mp member
        · rw [mem_singleton.mp member]
          rfl
        · exact silent label member
    · obtain ⟨retryRdReq, quiet, ends, silent⟩ := retries { ctrl with
        respQueue := []
        respondEvent := none
        helpers } (.served memPkt.pkt memPkt.addr :: answer ++ [])
      refine ⟨ctrl.draining, retryRdReq, [] ++ quiet, ?_, silent⟩
      rw [← List.append_assoc]
      exact ends

theorem respond_total {now : Tick} (allIntfDrained : Bool) (accounts : Accounts params ctrl past) (fires : ctrl.respondEvent = some now) :
    ∃ after labels, { ctrl with respondEvent := none }.processRespondEvent params now allIntfDrained = .ok (after, labels) ∧
      Accounts params after (past ++ labels) ∧ Covered ctrl labels := by
  obtain ⟨books, shares, story, inside, same, sorted, due⟩ := accounts
  obtain ⟨memPkt, rest, queue⟩ : ∃ memPkt rest, ctrl.respQueue = memPkt :: rest := by
    apply exists_cons_of_ne_nil
    intro empty
    rw [fires, empty] at due
    cases due
  rw [queue] at shares story inside same sorted due
  have front : now = memPkt.readyTime := by
    rw [fires] at due
    exact Option.some.inj due
  obtain ⟨first, others⟩ := pairwise_cons.mp sorted
  have moved : (ctrl.readQueue ++ memPkt :: rest).Perm (memPkt :: (ctrl.readQueue ++ rest)) := perm_middle
  have kept : ∀ p ∈ ctrl.readQueue ++ rest, p ∈ ctrl.readQueue ++ memPkt :: rest :=
    fun p member => moved.mem_iff.mpr (mem_cons_of_mem _ member)
  have member : memPkt ∈ ctrl.readQueue ++ memPkt :: rest := moved.mem_iff.mpr mem_cons_self
  have held : Shares { ctrl with respondEvent := none }.helpers
      ((memPkt.pkt.pkt.id, memPkt.burstHelper) :: slots (ctrl.readQueue ++ rest)) := shares.perm (moved.map _)
  obtain ⟨helpers, when, last, completes, isLast, shared⟩ := completeBurst_total _ now held (inside memPkt member)
  have alone : last = true ↔ ∀ burst ∈ pending (ctrl.readQueue ++ rest), burst.1.pkt.id ≠ memPkt.pkt.pkt.id := by
    rw [isLast]
    constructor
    · intro absent burst queued mine
      obtain ⟨p, waits, rfl⟩ := mem_map.mp queued
      exact absent p.burstHelper (mem_map.mpr ⟨p, waits, by rw [← mine]⟩)
    · intro apart helper queued
      obtain ⟨p, queued, slot⟩ := mem_map.mp queued
      exact apart (p.pkt, p.addr) (mem_map_of_mem queued) (congrArg Prod.fst slot)
  obtain ⟨_, _, _, runs, silent⟩ := processRespondEvent_ok _ allIntfDrained (by exact queue) rfl
    (fun p queued => front ▸ first p queued) completes
  refine ⟨_, _, runs, ?_, ?_⟩
  · refine ⟨books.respond queue, shared, ?_, fun p queued => inside p (kept p queued), ?_, others, rfl⟩
    · apply story.serve when (moved.map _) silent _ last alone
      intro burst queued mine
      obtain ⟨p, waits, rfl⟩ := mem_map.mp queued
      rw [same p (kept p waits) memPkt member mine]
    · intro p queued q queued'
      exact same p (kept p queued) q (kept q queued')
  · apply covered_of_none
    rw [madeOf_append, madeOf_append, madeOf_quiet silent]
    cases last <;> cases memPkt.pkt.pkt.needsResponse <;> rfl

end Responding

section Requesting
variable {params : Params} {ctrl after : MemCtrl} {now : Tick} {past new : List Label}

structure SameCore (ctrl after : MemCtrl) : Prop where
  ledger : ledger after = ledger ctrl
  helpers : after.helpers = ctrl.helpers
  respondEvent : after.respondEvent = ctrl.respondEvent

theorem Accounts.aside (accounts : Accounts params ctrl past) (core : SameCore ctrl after)
    (quiet : ∀ label ∈ new, Quiet label = true) : Accounts params after (past ++ new) := by
  obtain ⟨same, helpers, respondEvent⟩ := core
  have reads : after.readQueue = ctrl.readQueue := congrArg Ledger.readQueue same
  have responses : after.respQueue = ctrl.respQueue := congrArg Ledger.respQueue same
  refine ⟨?_, ?_, ?_, ?_, ?_, ?_, ?_⟩
  · rw [same]
    exact accounts.books
  · rw [helpers, reads, responses]
    exact accounts.shares
  · rw [reads, responses]
    exact accounts.story.quiet quiet (List.Perm.refl _)
  · rw [reads, responses]
    exact accounts.inside
  · rw [reads, responses]
    exact accounts.same
  · rw [responses]
    exact accounts.sorted
  · rw [respondEvent, responses]
    exact accounts.due

theorem quiet_append {first second : List Label} (quiet : ∀ label ∈ first, Quiet label = true)
    (quiet' : ∀ label ∈ second, Quiet label = true) : ∀ label ∈ first ++ second, Quiet label = true :=
  fun label member => (mem_append.mp member).elim (quiet label) (quiet' label)

theorem quiet_singleton {label : Label} (quiet : Quiet label = true) : ∀ other ∈ [label], Quiet other = true :=
  fun _ member => mem_singleton.mp member ▸ quiet

theorem quiet_nil : ∀ label ∈ ([] : List Label), Quiet label = true := fun _ member => nomatch member

structure Aside (ctrl : MemCtrl) (result : MemCtrl × List Label) : Prop where
  core : SameCore ctrl result.1
  quiet : ∀ label ∈ result.2, Quiet label = true

theorem turnAround_aside (ctrl : MemCtrl) (allIntfDrained : Bool) : Aside ctrl (ctrl.turnAround allIntfDrained) := by
  have switches : SameCore ctrl ctrl.switchCommand := by
    unfold switchCommand
    repeat' split
    all_goals exact ⟨rfl, rfl, rfl⟩
  have drains : Aside ctrl (ctrl.switchCommand.drainIfDone allIntfDrained) := by
    obtain ⟨ledger, helpers, respondEvent⟩ := switches
    unfold drainIfDone
    split
    · exact ⟨⟨ledger, helpers, respondEvent⟩, quiet_singleton rfl⟩
    · exact ⟨⟨ledger, helpers, respondEvent⟩, quiet_nil⟩
  obtain ⟨⟨ledger, helpers, respondEvent⟩, quiet⟩ := drains
  exact ⟨⟨ledger, helpers, respondEvent⟩, quiet⟩

theorem checkDrained_aside (ctrl : MemCtrl) (allIntfDrained : Bool) : Aside ctrl (ctrl.checkDrained allIntfDrained) := by
  unfold checkDrained
  split
  · exact ⟨⟨rfl, rfl, rfl⟩, quiet_singleton rfl⟩
  · exact ⟨⟨rfl, rfl, rfl⟩, quiet_nil⟩

theorem finishRequest_total (params : Params) (now : Tick) (ctrl : MemCtrl) (nextReqTime : Tick) :
    ∃ result, ctrl.finishRequest params now nextReqTime = .ok result ∧ Aside ctrl result := by
  obtain ⟨nextReqEvent, schedules⟩ : ∃ nextReqEvent, (if ctrl.nextReqEvent.isNone = true then do
      let nextReqEvent ← schedule now ctrl.nextReqEvent (max nextReqTime now)
      return { ctrl with nextReqEvent }
    else .ok ctrl) = .ok { ctrl with nextReqEvent } := by
    split
    next none =>
      refine ⟨some (max nextReqTime now), ?_⟩
      simp [schedule, none]
    next => exact ⟨ctrl.nextReqEvent, rfl⟩
  unfold finishRequest
  rw [schedules]
  dsimp only [ok_bind]
  split
  · exact ⟨_, rfl, ⟨rfl, rfl, rfl⟩, quiet_singleton rfl⟩
  · exact ⟨_, rfl, ⟨rfl, rfl, rfl⟩, quiet_nil⟩

theorem perm_eraseIdx {queue : List MemPacket} {memPkt : MemPacket} {place : Nat} (found : queue[place]? = some memPkt) :
    queue.Perm (memPkt :: queue.eraseIdx place) := by
  obtain ⟨inside, is⟩ := List.getElem?_eq_some_iff.mp found
  rw [← is]
  exact (getElem_cons_eraseIdx_perm inside).symm

theorem logResponse_total {entries fewer : List (Nat × Addr)} (ctrl : MemCtrl) (dir : BusState) (id : Nat) (addr : Addr)
    (logged : Logged ctrl.packetPriorities ctrl.requestTimes entries) (perm : entries.Perm ((id, addr) :: fewer)) :
    ctrl.logResponse dir id addr = .ok { ctrl with
      totalReadQueueSize := match dir with
        | .read => ctrl.totalReadQueueSize - 1
        | .write => ctrl.totalReadQueueSize
      totalWriteQueueSize := match dir with
        | .read => ctrl.totalWriteQueueSize
        | .write => ctrl.totalWriteQueueSize - 1
      packetPriorities := Function.update ctrl.packetPriorities id (ctrl.packetPriorities id - 1)
      requestTimes := Function.update ctrl.requestTimes (id, addr) (ctrl.requestTimes (id, addr) - 1) } := by
  obtain ⟨priority, time⟩ := logged.some (id, addr) perm
  unfold logResponse
  cases dir with
  | read | write =>
    dsimp only
    rw [beq_false_of_ne priority, beq_false_of_ne time]
    rfl

theorem processWrite_total (accounts : Accounts params ctrl past) (choice : Choice) :
    ∃ after switches, ctrl.processWrite params choice = .ok (after, switches) ∧ Accounts params after past := by
  unfold processWrite
  cases found : chosen choice ctrl.writeQueue with
  | none => exact ⟨ctrl, none, rfl, accounts⟩
  | some memPkt =>
    obtain ⟨place, _, is, getD⟩ := chosen_some found
    have perm := perm_eraseIdx is
    have member : memPkt ∈ ctrl.writeQueue := perm.mem_iff.mpr mem_cons_self
    have whole : (ctrl.readQueue ++ ctrl.writeQueue).Perm (memPkt :: (ctrl.readQueue ++ ctrl.writeQueue.eraseIdx place)) :=
      (perm.append_left _).trans perm_middle
    have logs := logResponse_total { ctrl with
      writesThisTime := ctrl.writesThisTime + 1
      isInWriteQueue := ctrl.isInWriteQueue.erase (params.burstAlign memPkt.addr) } .write memPkt.pkt.requestorId memPkt.addr
      accounts.books.logged (whole.map logKey)
    have issued := accounts.books.issue perm
    dsimp only
    rw [decide_eq_true (accounts.books.small memPkt (mem_append_right _ member)), logs, getD]
    obtain ⟨books, shares, story, inside, same, sorted, due⟩ := accounts
    exact ⟨_, _, rfl, issued, shares, story, inside, same, sorted, due⟩

def readyAt (p : MemPacket) (readyTime : Tick) : MemPacket := { p with readyTime }

theorem map_answered {α : Type} {readQueue rest : List MemPacket} {toRead : MemPacket} (perm : readQueue.Perm (toRead :: rest))
    (respQueue : List MemPacket) (readyTime : Tick) (see : MemPacket → α) (same : see (readyAt toRead readyTime) = see toRead) :
    ((readQueue ++ respQueue).map see).Perm ((rest ++ (respQueue ++ [readyAt toRead readyTime])).map see) := by
  have whole := ((perm.append_right respQueue).map see).trans (perm_append_singleton (see toRead) _).symm
  rw [← same] at whole
  have ends : (rest ++ respQueue ++ [readyAt toRead readyTime]).map see = (rest ++ respQueue).map see ++ [see (readyAt toRead readyTime)] :=
    map_append
  rw [← List.append_assoc, ends]
  exact whole

theorem scheduleResponse_ok (ctrl : MemCtrl) {readyTime : Tick} (ready : now ≤ readyTime)
    (inOrder : ∀ p ∈ ctrl.respQueue, p.readyTime ≤ readyTime) (due : ctrl.respondEvent = ctrl.respQueue.head?.map MemPacket.readyTime) :
    ∃ respondEvent, (match ctrl.respQueue.getLast? with
        | none => do
          let respondEvent ← schedule now ctrl.respondEvent readyTime
          return { ctrl with respondEvent }
        | some back => do
          require (decide (back.readyTime ≤ readyTime)) "resp_queue.back()->readyTime <= mem_pkt->readyTime"
          require ctrl.respondEvent.isSome "resp_event.scheduled()"
          return ctrl) = (.ok { ctrl with respondEvent } : Except Abort _) ∧
      respondEvent = some (ctrl.respQueue.head?.elim readyTime MemPacket.readyTime) := by
  cases last : ctrl.respQueue.getLast? with
  | none =>
    have empty := getLast?_eq_none_iff.mp last
    rw [empty] at due
    refine ⟨some readyTime, ?_, by rw [empty]; rfl⟩
    rw [due]
    simp [schedule, ready]
  | some back =>
    have member := mem_of_getLast? last
    obtain ⟨_, _, queue⟩ := exists_cons_of_ne_nil (ne_nil_of_mem member)
    rw [queue] at due
    have scheduled : ctrl.respondEvent.isSome = true := by
      rw [due]
      rfl
    refine ⟨ctrl.respondEvent, ?_, ?_⟩
    · dsimp only
      rw [decide_eq_true (inOrder back member), scheduled]
      rfl
    · rw [due, queue]
      rfl

section

variable (accounts : Accounts params ctrl past)
include accounts

theorem processRead_total {choice : Choice} (ready : now ≤ choice.readyTime)
    (inOrder : ∀ p ∈ ctrl.respQueue, p.readyTime ≤ choice.readyTime) :
    ∃ after switches, ctrl.processRead params now choice = .ok (after, switches) ∧ Accounts params after past := by
  unfold processRead
  split
  · split
    · exact ⟨ctrl, some true, rfl, accounts⟩
    · exact ⟨ctrl, none, rfl, accounts⟩
  cases found : chosen choice ctrl.readQueue with
  | none => exact ⟨ctrl, none, rfl, accounts⟩
  | some toRead =>
    obtain ⟨place, _, is, getD⟩ := chosen_some found
    have perm := perm_eraseIdx is
    have member : toRead ∈ ctrl.readQueue := perm.mem_iff.mpr mem_cons_self
    have logs := logResponse_total { ctrl with readsThisTime := ctrl.readsThisTime + 1 } .read toRead.pkt.requestorId toRead.addr
      accounts.books.logged ((perm.append_right ctrl.writeQueue).map logKey)
    have answered := accounts.books.answer (readyAt toRead choice.readyTime) perm
    dsimp only
    rw [decide_eq_true (accounts.books.small toRead (mem_append_left _ member)), decide_eq_true ready, logs, getD]
    obtain ⟨respondEvent, schedules, planned⟩ := scheduleResponse_ok { ctrl with
        readsThisTime := ctrl.readsThisTime + 1
        totalReadQueueSize := ctrl.totalReadQueueSize - 1
        packetPriorities := Function.update ctrl.packetPriorities toRead.pkt.requestorId (ctrl.packetPriorities toRead.pkt.requestorId - 1)
        requestTimes := Function.update ctrl.requestTimes (toRead.pkt.requestorId, toRead.addr)
          (ctrl.requestTimes (toRead.pkt.requestorId, toRead.addr) - 1)
        readQueueSize := ctrl.readQueueSize - 1 } ready inOrder accounts.due
    have moved : ∀ p ∈ ctrl.readQueue.eraseIdx place ++ (ctrl.respQueue ++ [readyAt toRead choice.readyTime]),
        ∃ q ∈ ctrl.readQueue ++ ctrl.respQueue, q.pkt = p.pkt := by
      intro p queued
      have seen := (map_answered perm ctrl.respQueue choice.readyTime MemPacket.pkt rfl).mem_iff.mpr (mem_map_of_mem queued)
      exact mem_map.mp seen
    refine ⟨_, _, (bind_of_ok schedules _).trans rfl, answered, ?_, ?_, ?_, ?_, ?_, ?_⟩
    · exact accounts.shares.perm (map_answered perm ctrl.respQueue choice.readyTime _ rfl)
    · have told := accounts.story.quiet quiet_nil (map_answered perm ctrl.respQueue choice.readyTime _ rfl)
      rw [append_nil] at told
      exact told
    · intro p queued
      obtain ⟨q, before, same⟩ := moved p queued
      rw [← same]
      exact accounts.inside q before
    · intro p queued p' queued' same
      obtain ⟨q, before, is⟩ := moved p queued
      obtain ⟨q', before', is'⟩ := moved p' queued'
      rw [← is, ← is']
      apply accounts.same q before q' before'
      rw [is, is']
      exact same
    · apply pairwise_append.mpr
      refine ⟨accounts.sorted, pairwise_singleton _ _, fun p queued _ single => ?_⟩
      rw [mem_singleton.mp single]
      exact inOrder p queued
    · show respondEvent = _
      rw [planned]
      cases ctrl.respQueue <;> rfl

theorem finish_total (turn : Bool) (busStateNext : BusState) (now nextReqTime : Tick) :
    ∃ after labels, (if turn = true then { ctrl with busStateNext } else ctrl).finishRequest params now nextReqTime = .ok (after, labels) ∧
      Accounts params after (past ++ labels) ∧ ∀ label ∈ labels, Quiet label = true := by
  obtain ⟨⟨after, labels⟩, ran, ⟨ledger, helpers, respondEvent⟩, quiet⟩ :=
    finishRequest_total params now (if turn = true then { ctrl with busStateNext } else ctrl) nextReqTime
  refine ⟨after, labels, ran, accounts.aside ?_ quiet, quiet⟩
  cases turn <;> exact ⟨ledger, helpers, respondEvent⟩

theorem nextReq_total {choice : Choice} (ready : now ≤ choice.readyTime)
    (inOrder : ∀ p ∈ ctrl.respQueue, p.readyTime ≤ choice.readyTime) :
    ∃ after labels, ctrl.processNextReqEvent params now choice = .ok (after, labels) ∧ Accounts params after (past ++ labels) ∧
      Covered ctrl labels := by
  obtain ⟨turned, turns, core, quiet⟩ : ∃ turned, ctrl.turnAround choice.allIntfDrained = turned ∧ Aside ctrl turned :=
    ⟨_, rfl, turnAround_aside ctrl choice.allIntfDrained⟩
  obtain ⟨middle, labels⟩ := turned
  have accounted := accounts.aside core quiet
  have responses : middle.respQueue = ctrl.respQueue := congrArg Ledger.respQueue core.ledger
  -- each way ends with labels that are not about packets
  suffices ends : ∃ after labels', ctrl.processNextReqEvent params now choice = .ok (after, labels ++ labels') ∧
      Accounts params after (past ++ labels ++ labels') ∧ ∀ label ∈ labels', Quiet label = true by
    obtain ⟨after, labels', ran, kept, quiet'⟩ := ends
    rw [List.append_assoc] at kept
    exact ⟨after, _, ran, kept, covered_of_none (madeOf_quiet (quiet_append quiet quiet'))⟩
  unfold processNextReqEvent
  rw [turns]
  dsimp only
  split
  · exact ⟨middle, [], by rw [append_nil]; rfl, by rwa [append_nil], quiet_nil⟩
  split
  · obtain ⟨read, switches, reads, kept⟩ := processRead_total accounted ready (responses ▸ inOrder)
    rw [reads]
    cases switches with
    | none =>
      obtain ⟨core', quiet'⟩ := checkDrained_aside read choice.allIntfDrained
      exact ⟨_, _, rfl, kept.aside core' quiet', quiet'⟩
    | some switchToWrites =>
      obtain ⟨after, labels', ran, kept, quiet'⟩ := finish_total kept switchToWrites .write now choice.nextReqTime
      exact ⟨after, labels', (bind_of_ok ran _).trans rfl, kept, quiet'⟩
  · obtain ⟨written, switches, writes, kept⟩ := processWrite_total accounted choice
    rw [writes]
    cases switches with
    | none => exact ⟨written, [], by rw [append_nil]; rfl, by rwa [append_nil], quiet_nil⟩
    | some switchToReads =>
      obtain ⟨after, labels', ran, kept, quiet'⟩ := finish_total kept switchToReads .read now choice.nextReqTime
      exact ⟨after, labels', (bind_of_ok ran _).trans rfl, kept, quiet'⟩

theorem drain_total (now : Tick) (allIntfDrained : Bool) :
    ∃ after labels, ctrl.drain now allIntfDrained = .ok (after, labels) ∧ Accounts params after (past ++ labels) ∧
      Covered ctrl labels := by
  unfold drain
  split
  · obtain ⟨nextReqEvent, wakes⟩ : ∃ nextReqEvent, (if ctrl.totalWriteQueueSize ≠ 0 then ctrl.wake now else .ok ctrl) =
        .ok { ctrl with nextReqEvent } := by
      split
      · exact wake_total now ctrl
      · exact ⟨ctrl.nextReqEvent, rfl⟩
    rw [wakes]
    exact ⟨_, _, rfl, accounts.aside (by exact ⟨rfl, rfl, rfl⟩) quiet_nil, covered_of_none rfl⟩
  · exact ⟨_, _, rfl, accounts.aside ⟨rfl, rfl, rfl⟩ quiet_nil, covered_of_none rfl⟩

end

end Requesting

section Runs
variable {params : Params} {k : Nat}

/-- What may happen to the controller: a packet that is offered, or an event that is due,
with ready times that do not decrease. -/
def Allowed (params : Params) (ctrl : MemCtrl) : Tick × Event → Prop
  | (_, .recvTimingReq incoming) => Offered params ctrl incoming
  | (now, .nextReq choice) => ctrl.nextReqEvent = some now ∧ now ≤ choice.readyTime ∧ ∀ p ∈ ctrl.respQueue, p.readyTime ≤ choice.readyTime
  | (now, .respond _) => ctrl.respondEvent = some now
  | (now, .restart due) => ctrl.nextReqEvent = none ∧ now ≤ due
  | (_, .drain _) => True

def FitsEvent (params : Params) : Tick × Event → Prop
  | (_, .recvTimingReq incoming) => Fits params incoming
  | _ => True

theorem step_accounts {past : List Label} {event : Tick × Event} (burst : Burst params k)
    (accounts : Accounts params ctrl past) (allowed : Allowed params ctrl event) (fits : FitsEvent params event) :
    ∃ after labels, step params ctrl event = .ok (after, labels) ∧ Accounts params after (past ++ labels) ∧ Covered ctrl labels := by
  obtain ⟨now, event⟩ := event
  cases event with
  | recvTimingReq incoming =>
    cases isWrite : incoming.pkt.isWrite with
    | true => exact recvWrite_ok burst accounts allowed fits isWrite
    | false => exact recvRead_ok burst accounts allowed fits isWrite
  | nextReq =>
    obtain ⟨_, ready, inOrder⟩ := allowed
    have core : SameCore ctrl { ctrl with nextReqEvent := none } := ⟨rfl, rfl, rfl⟩
    have fired := accounts.aside core quiet_nil
    rw [append_nil] at fired
    exact nextReq_total fired ready inOrder
  | respond allIntfDrained => exact respond_total allIntfDrained accounts allowed
  | restart due =>
    obtain ⟨idle, later⟩ := allowed
    have schedules : schedule now ctrl.nextReqEvent due = .ok (some due) := by
      simp [schedule, idle, later]
    refine ⟨_, _, (bind_of_ok schedules _).trans rfl, accounts.aside (by exact ⟨rfl, rfl, rfl⟩) quiet_nil, covered_of_none rfl⟩
  | drain allIntfDrained => exact drain_total accounts now allIntfDrained

theorem accounts_initial (params : Params) : Accounts params {} [] := by
  have none : ∀ {α : Type} {item : α}, item ∉ ([] : List α) := not_mem_nil
  refine ⟨⟨rfl, rfl, rfl, rfl, Nat.zero_le _, Nat.zero_le _, nodup_nil, rfl, ⟨fun _ => rfl, fun _ => rfl⟩, ?_, ?_⟩,
    ⟨?_, ?_, ?_, ?_, ?_⟩, ⟨rfl, ?_, fun _ => rfl, fun _ => rfl, ?_⟩, ?_, ?_, List.Pairwise.nil, rfl⟩
  · exact fun _ member => absurd member none
  · exact fun _ member => absurd member none
  · intro address object held
    cases held
  · exact fun _ _ _ member => absurd member none
  · exact fun _ _ _ member => absurd member none
  · exact fun _ member => absurd member none
  · exact fun _ _ member => absurd member none
  · exact fun _ member => absurd member none
  · intro before incoming due after split
    have := congrArg List.length split
    simp at this
  · exact fun _ member => absurd member none
  · exact fun _ member => absurd member none

/-- In every run, as long as no packet is too large or too near the end of the addresses
for the arithmetic of its bursts, no assertion fails and the accounts are in order. -/
theorem packets_accounted (burst : Burst params k) {events : List (Tick × Event)}
    (each : Each (step params) (fun ctrl event => Allowed params ctrl event ∧ FitsEvent params event) {} events) :
    ∃ final labels, run (step params) {} events = .ok (final, labels) ∧ Accounts params final labels ∧
      ∀ event, Allowed params final event → FitsEvent params event →
        ∃ after new, step params final event = .ok (after, new) ∧ Covered final new := by
  obtain ⟨final, labels, ran, accounts⟩ := run_advances _ (Accounts params) (fun ctrl _ event before ⟨allowed, fits⟩ => by
    obtain ⟨after, labels, taken, kept, _⟩ := step_accounts burst before allowed fits
    exact ⟨after, labels, taken, kept⟩) (accounts_initial params) each
  refine ⟨final, labels, ran, accounts, fun event allowed fits => ?_⟩
  obtain ⟨after, new, taken, _, covered⟩ := step_accounts burst accounts allowed fits
  exact ⟨after, new, taken, covered⟩

end Runs

theorem fourEntries_burst : Burst fourEntries 6 := ⟨by decide, rfl⟩

def readOf (id : Nat) (addr : Addr) (size : Nat) : Incoming where
  pkt := Packet.ofRequest { paddr := addr, size, id, flags := 0 } .readReq []
  requestorId := 0

def halfCovered : List (Tick × Event) :=
  [(0, .recvTimingReq (writeOf 0 0x0 64)), (0, .recvTimingReq (readOf 1 0x0 128)), (0, .nextReq { takesFirst with readyTime := 5 }),
    (5, .respond false)]

theorem halfCovered_answered : ∃ final labels, run (step fourEntries) {} halfCovered = .ok (final, labels) ∧
    labels.countP (answers 1) = 1 ∧ labels.countP (misses (1, 0x40)) = 1 ∧ labels.countP (serves (1, 0x40)) = 1 := by
  have each : Each (step fourEntries) (fun ctrl event => Allowed fourEntries ctrl event ∧ FitsEvent fourEntries event) {} halfCovered := by
    have none : ∀ {α : Type} {item : α}, item ∉ ([] : List α) := not_mem_nil
    refine ⟨⟨⟨rfl, rfl, rfl, ?_, ?_, fun _ member => absurd member none⟩, ?_, ?_⟩,
      ⟨⟨rfl, rfl, rfl, ?_, ?_, fun _ member => absurd member none⟩, ?_, ?_⟩,
      ⟨⟨rfl, ?_, fun _ member => absurd member none⟩, trivial⟩, ⟨rfl, trivial⟩, trivial⟩
    all_goals decide
  obtain ⟨final, labels, ran, accounts, _⟩ := packets_accounted fourEntries_burst each
  have asked : labels.countP (asks 1) = 1 ∧ labels.countP (misses (1, 0x40)) = 1 ∧ final.readQueue ++ final.respQueue = [] := by
    cases ran
    exact ⟨rfl, rfl, rfl⟩
  obtain ⟨asked, missed, empty⟩ := asked
  have answered := accounts.story.answered 1
  have served := accounts.story.served (1, 0x40)
  rw [empty] at answered served
  exact ⟨final, labels, ran, (asked.symm.trans answered).symm, missed, (missed.symm.trans served).symm⟩

/-- The sum of the size and the burst is 63 in 32 bits, so there are no bursts. -/
theorem large_read_aborts : Each (step fourEntries) (Allowed fourEntries) {} [(0, .recvTimingReq (readOf 0 0x40 0xFFFFFFFF))] ∧
    run (step fourEntries) {} [(0, .recvTimingReq (readOf 0 0x40 0xFFFFFFFF))] = .error (.assertion "pkt_count != 0") := by
  refine ⟨⟨⟨rfl, rfl, rfl, ?_, ?_, ?_⟩, trivial⟩, rfl⟩
  · decide
  · decide
  · exact fun _ member => absurd member not_mem_nil

end ImcGem5.Mem.Dram.Proofs.Accounting
