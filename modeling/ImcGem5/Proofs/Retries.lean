import ImcGem5.Mem.Dram

/-! Who wakes a requestor that the DRAM controller has refused. While nextReqEvent is not
scheduled there are no reads and at most as many writes as the low threshold, so a write
that is refused then is one that waits for an event that nobody schedules. -/

namespace ImcGem5.Mem.Dram.Proofs.Retries
open Lib Dram.MemCtrl

variable {params : Params}

/-- The counters agree with the queues. -/
structure Counted (params : Params) (ctrl : MemCtrl) : Prop where
  reads : ctrl.readQueueSize = ctrl.readQueue.length
  totalReads : ctrl.totalReadQueueSize = ctrl.readQueue.length
  writes : ctrl.writeQueueSize = ctrl.writeQueue.length
  totalWrites : ctrl.totalWriteQueueSize = ctrl.writeQueue.length
  room : ctrl.writeQueue.length ≤ params.writeBufferSize

/-- The invariant: what waits or is owed a retry will be served. -/
structure Awake (params : Params) (ctrl : MemCtrl) : Prop where
  counted : Counted params ctrl
  responding : ctrl.respQueue ≠ [] → ctrl.respondEvent.isSome
  idle : ctrl.nextReqEvent = none → ctrl.readQueue = [] ∧ ctrl.writeQueue.length ≤ params.writeLowThreshold
  writing : ctrl.busStateNext = .write → ctrl.writeQueue ≠ []
  refusedWrite : ctrl.retryWrReq = true → params.writeLowThreshold < ctrl.writeQueue.length
  refusedRead : ctrl.retryRdReq = true → ctrl.readQueue ≠ [] ∨ ctrl.respQueue ≠ []

/-- Queueing leaves responses, events and retries alone. -/
structure Kept (ctrl after : MemCtrl) : Prop where
  respQueue : after.respQueue = ctrl.respQueue
  busStateNext : after.busStateNext = ctrl.busStateNext
  retryRdReq : after.retryRdReq = ctrl.retryRdReq
  retryWrReq : after.retryWrReq = ctrl.retryWrReq
  nextReqEvent : after.nextReqEvent = ctrl.nextReqEvent
  respondEvent : after.respondEvent = ctrl.respondEvent

theorem Kept.refl (ctrl : MemCtrl) : Kept ctrl ctrl := ⟨rfl, rfl, rfl, rfl, rfl, rfl⟩

theorem Kept.trans {ctrl middle after : MemCtrl} (first : Kept ctrl middle) (second : Kept middle after) : Kept ctrl after :=
  ⟨second.respQueue.trans first.respQueue, second.busStateNext.trans first.busStateNext,
    second.retryRdReq.trans first.retryRdReq, second.retryWrReq.trans first.retryWrReq,
    second.nextReqEvent.trans first.nextReqEvent, second.respondEvent.trans first.respondEvent⟩

section Writes
variable {incoming : Incoming}

/-- A write adds at most `count` bursts. -/
structure Wrote (ctrl after : MemCtrl) (count : Nat) : Prop where
  kept : Kept ctrl after
  reads : after.readQueue = ctrl.readQueue
  readSize : after.readQueueSize = ctrl.readQueueSize
  totalReads : after.totalReadQueueSize = ctrl.totalReadQueueSize
  grows : ctrl.writeQueue.length ≤ after.writeQueue.length
  bounded : after.writeQueue.length ≤ ctrl.writeQueue.length + count
  size : after.writeQueueSize + ctrl.writeQueue.length = ctrl.writeQueueSize + after.writeQueue.length
  total : after.totalWriteQueueSize + ctrl.writeQueue.length = ctrl.totalWriteQueueSize + after.writeQueue.length

theorem addWriteBurst_wrote {writing after : MemCtrl × List Label} {burst : Addr × Nat}
    (ran : addWriteBurst params incoming writing burst = .ok after) : Wrote writing.1 after.1 1 := by
  unfold addWriteBurst at ran
  dsimp only at ran
  split at ran
  · obtain ⟨_, ran⟩ := of_require ran
    obtain ⟨_, ran⟩ := of_require ran
    cases ran
    refine ⟨⟨rfl, rfl, rfl, rfl, rfl, rfl⟩, rfl, rfl, rfl, ?_, ?_, ?_, ?_⟩ <;> simp [logRequest] <;> omega
  · cases ran
    exact ⟨.refl _, rfl, rfl, rfl, Nat.le_refl _, Nat.le_succ _, rfl, rfl⟩

theorem Wrote.trans {ctrl middle after : MemCtrl} {count count' : Nat} (first : Wrote ctrl middle count)
    (second : Wrote middle after count') : Wrote ctrl after (count + count') := by
  obtain ⟨kept, reads, readSize, totalReads, _⟩ := first
  obtain ⟨kept', reads', readSize', totalReads', _⟩ := second
  exact ⟨kept.trans kept', reads'.trans reads, readSize'.trans readSize, totalReads'.trans totalReads, by omega, by omega, by omega,
    by omega⟩

theorem addWriteBursts_wrote {bursts : List (Addr × Nat)} {writing after : MemCtrl × List Label}
    (ran : bursts.foldlM (addWriteBurst params incoming) writing = .ok after) : Wrote writing.1 after.1 bursts.length := by
  induction bursts generalizing writing with
  | nil =>
    cases ran
    exact ⟨.refl _, rfl, rfl, rfl, Nat.le_refl _, Nat.le_refl _, rfl, rfl⟩
  | cons _ _ ih =>
    obtain ⟨_, first, rest⟩ := of_bind ran
    have wrote := (addWriteBurst_wrote first).trans (ih rest)
    rwa [Nat.add_comm] at wrote

end Writes

section Reads
variable {incoming : Incoming} {pktCount : Nat} {reading after : Reading}

/-- Each of `count` bursts is queued or served by a write. -/
structure Queued (reading after : Reading) (count : Nat) : Prop where
  kept : Kept reading.ctrl after.ctrl
  writes : after.ctrl.writeQueue = reading.ctrl.writeQueue
  writeSize : after.ctrl.writeQueueSize = reading.ctrl.writeQueueSize
  totalWrites : after.ctrl.totalWriteQueueSize = reading.ctrl.totalWriteQueueSize
  length : after.ctrl.readQueue.length + after.pktsServicedByWrQ =
    reading.ctrl.readQueue.length + reading.pktsServicedByWrQ + count
  grows : reading.ctrl.readQueue.length ≤ after.ctrl.readQueue.length
  size : after.ctrl.readQueueSize + reading.ctrl.readQueue.length = reading.ctrl.readQueueSize + after.ctrl.readQueue.length
  total : after.ctrl.totalReadQueueSize + reading.ctrl.readQueue.length =
    reading.ctrl.totalReadQueueSize + after.ctrl.readQueue.length

theorem addReadBurst_queued {burst : Addr × Nat}
    (ran : addReadBurst params incoming pktCount reading burst = .ok after) : Queued reading after 1 := by
  unfold addReadBurst at ran
  dsimp only at ran
  split at ran
  · cases ran
    refine ⟨.refl _, rfl, rfl, rfl, ?_, Nat.le_refl _, rfl, rfl⟩
    dsimp only
    omega
  · obtain ⟨_, ran⟩ := of_require ran
    cases ran
    refine ⟨⟨rfl, rfl, rfl, rfl, rfl, rfl⟩, rfl, rfl, rfl, ?_, ?_, ?_, ?_⟩ <;> simp [logRequest] <;> omega

theorem Queued.trans {middle : Reading} {count count' : Nat} (first : Queued reading middle count)
    (second : Queued middle after count') : Queued reading after (count + count') := by
  obtain ⟨kept, writes, writeSize, totalWrites, _⟩ := first
  obtain ⟨kept', writes', writeSize', totalWrites', _⟩ := second
  exact ⟨kept.trans kept', writes'.trans writes, writeSize'.trans writeSize, totalWrites'.trans totalWrites, by omega, by omega,
    by omega, by omega⟩

theorem addReadBursts_queued {bursts : List (Addr × Nat)}
    (ran : bursts.foldlM (addReadBurst params incoming pktCount) reading = .ok after) : Queued reading after bursts.length := by
  induction bursts generalizing reading with
  | nil =>
    cases ran
    exact ⟨.refl _, rfl, rfl, rfl, rfl, Nat.le_refl _, rfl, rfl⟩
  | cons _ _ ih =>
    obtain ⟨_, first, rest⟩ := of_bind ran
    have queued := (addReadBurst_queued first).trans (ih rest)
    rwa [Nat.add_comm] at queued

end Reads

theorem length_burstsFrom (params : Params) (incoming : Incoming) (count : Nat) (addr : Addr) :
    (burstsFrom params incoming count addr).length = count := by
  induction count generalizing addr with
  | zero => rfl
  | succ _ ih => exact congrArg Nat.succ (ih _)

theorem wake_ok {now : Tick} {ctrl after : MemCtrl} (ran : wake now ctrl = .ok after) :
    ∃ due, after = { ctrl with nextReqEvent := some due } := by
  unfold wake at ran
  split at ran
  · obtain ⟨_, scheduled, ran⟩ := of_bind ran
    obtain ⟨_, scheduled⟩ := of_require scheduled
    obtain ⟨_, scheduled⟩ := of_require scheduled
    cases scheduled
    cases ran
    exact ⟨_, rfl⟩
  next planned =>
    cases ran
    obtain ⟨due, is⟩ := Option.ne_none_iff_exists'.mp (by simpa using planned)
    exact ⟨due, by rw [← is]⟩

/-- An event that the simulator can hand out: events that were scheduled, an interface that is never
busy and finds a burst in a queue that has one, and packets that fit in the buffers. -/
def Served (params : Params) (ctrl : MemCtrl) : Tick × Event → Prop
  | (_, .recvTimingReq incoming) =>
    packetCount params incoming ≤ if incoming.pkt.isWrite then params.writeBufferSize else params.readBufferSize
  | (now, .nextReq choice) => ctrl.nextReqEvent = some now ∧ choice.busy = false ∧
    match ctrl.busStateNext with
    | .read => ctrl.readQueue ≠ [] → (chosen choice ctrl.readQueue).isSome
    | .write => ctrl.writeQueue ≠ [] → (chosen choice ctrl.writeQueue).isSome
  | (now, .respond _) => ctrl.respondEvent = some now
  | (now, .restart due) => ctrl.nextReqEvent = none ∧ now ≤ due
  | (_, .drain _) => True

instance Served.decidable (params : Params) (ctrl : MemCtrl) : ∀ event, Decidable (Served params ctrl event)
  | (_, .recvTimingReq _) => inferInstanceAs (Decidable (_ ≤ _))
  | (_, .nextReq choice) =>
    have : Decidable (match ctrl.busStateNext with
        | .read => ctrl.readQueue ≠ [] → (chosen choice ctrl.readQueue).isSome = true
        | .write => ctrl.writeQueue ≠ [] → (chosen choice ctrl.writeQueue).isSome = true) :=
      match ctrl.busStateNext with
      | .read => inferInstanceAs (Decidable (_ ≠ _ → _))
      | .write => inferInstanceAs (Decidable (_ ≠ _ → _))
    inferInstanceAs (Decidable (_ ∧ _ ∧ _))
  | (_, .respond _) => inferInstanceAs (Decidable (_ = _))
  | (_, .restart _) => inferInstanceAs (Decidable (_ ∧ _))
  | (_, .drain _) => .isTrue trivial

/-- A write that comes while the write queue is at most at its low threshold has room. -/
def Roomy (params : Params) (ctrl : MemCtrl) : Tick × Event → Prop
  | (_, .recvTimingReq incoming) => incoming.pkt.isWrite = true → ctrl.writeQueue.length ≤ params.writeLowThreshold →
    ctrl.writeQueue.length + packetCount params incoming ≤ params.writeBufferSize
  | _ => True

instance Roomy.decidable (params : Params) (ctrl : MemCtrl) : ∀ event, Decidable (Roomy params ctrl event)
  | (_, .recvTimingReq _) => inferInstanceAs (Decidable (_ → _ → _))
  | (_, .nextReq _) | (_, .respond _) | (_, .restart _) | (_, .drain _) => .isTrue trivial

section Steps
variable {ctrl after : MemCtrl} {labels : List Label} {now : Tick} {incoming : Incoming} {memPkt : MemPacket} {allIntfDrained : Bool}
  {choice : Choice}

theorem recvWrite_awake (awake : Awake params ctrl) (isWrite : incoming.pkt.isWrite = true)
    (roomy : ctrl.writeQueue.length ≤ params.writeLowThreshold →
      ctrl.writeQueue.length + packetCount params incoming ≤ params.writeBufferSize)
    (ran : ctrl.recvTimingReq params now incoming = .ok (after, labels)) : Awake params after := by
  obtain ⟨⟨reads, totalReads, writes, totalWrites, room⟩, responding, idle, writing, refusedWrite, refusedRead⟩ := awake
  obtain ⟨_, ran⟩ := of_panicIf ran
  obtain ⟨_, ran⟩ := of_panicIf ran
  obtain ⟨_, ran⟩ := of_panicIf ran
  rw [if_pos isWrite] at ran
  obtain ⟨_, ran⟩ := of_require ran
  split at ran
  next full =>
    cases ran
    unfold writeQueueFull at full
    refine ⟨⟨reads, totalReads, writes, totalWrites, room⟩, responding, idle, writing, fun _ => ?_, refusedRead⟩
    by_contra low
    have fits := roomy (Nat.le_of_not_lt low)
    rw [totalWrites, decide_eq_true_iff] at full
    omega
  next fits =>
    obtain ⟨⟨written, _⟩, adds, ran⟩ := of_bind ran
    obtain ⟨_, wakes, ran⟩ := of_bind ran
    cases ran
    obtain ⟨_, adds⟩ := of_require adds
    obtain ⟨⟨_, _⟩, folds, adds⟩ := of_bind adds
    obtain ⟨_, _, adds⟩ := of_bind adds
    cases adds
    have wrote := addWriteBursts_wrote folds
    rw [length_burstsFrom] at wrote
    obtain ⟨kept, sameReads, readSize, totalReads', grows, bounded, size, total⟩ := wrote
    obtain ⟨_, rfl⟩ := wake_ok wakes
    have space : ctrl.writeQueue.length + packetCount params incoming ≤ params.writeBufferSize := by
      unfold writeQueueFull at fits
      rw [totalWrites, decide_eq_true_iff] at fits
      omega
    refine ⟨⟨?_, ?_, ?_, ?_, ?_⟩, ?_, nofun, ?_, ?_, ?_⟩
    · exact readSize.trans (reads.trans (congrArg List.length sameReads.symm))
    · exact totalReads'.trans (totalReads.trans (congrArg List.length sameReads.symm))
    · show written.writeQueueSize = written.writeQueue.length
      dsimp only at size
      omega
    · show written.totalWriteQueueSize = written.writeQueue.length
      dsimp only at total
      omega
    · show written.writeQueue.length ≤ params.writeBufferSize
      dsimp only at bounded
      omega
    · show written.respQueue ≠ [] → written.respondEvent.isSome
      rw [kept.respQueue, kept.respondEvent]
      exact responding
    · show written.busStateNext = .write → written.writeQueue ≠ []
      rw [kept.busStateNext]
      intro isWriting
      have some := List.length_pos_iff.mpr (writing isWriting)
      dsimp only at grows
      exact List.length_pos_iff.mp (by omega)
    · show written.retryWrReq = true → params.writeLowThreshold < written.writeQueue.length
      rw [kept.retryWrReq]
      intro refused
      have high := refusedWrite refused
      dsimp only at grows
      omega
    · show written.retryRdReq = true → written.readQueue ≠ [] ∨ written.respQueue ≠ []
      rw [kept.retryRdReq, kept.respQueue, sameReads]
      exact refusedRead

theorem addToReadQueue_queued {pktCount : Nat} {allThere : Bool}
    (adds : ctrl.addToReadQueue params now incoming pktCount = .ok (after, allThere, labels)) :
    ∃ reading helpers, Queued { ctrl } reading pktCount ∧ after = { reading.ctrl with helpers } ∧
      (allThere = true → reading.pktsServicedByWrQ = pktCount) := by
  obtain ⟨_, adds⟩ := of_require adds
  obtain ⟨_, adds⟩ := of_require adds
  obtain ⟨reading, folds, adds⟩ := of_bind adds
  have queued := addReadBursts_queued folds
  rw [length_burstsFrom] at queued
  refine ⟨reading, after.helpers, queued, ?_⟩
  split at adds
  next all =>
    obtain ⟨_, _, adds⟩ := of_bind adds
    cases adds
    exact ⟨rfl, fun _ => all⟩
  next some =>
    split at adds
    · cases adds
      exact ⟨rfl, nofun⟩
    · obtain ⟨_, _, adds⟩ := of_bind adds
      cases adds
      exact ⟨rfl, nofun⟩

theorem recvRead_awake (awake : Awake params ctrl) (isRead : ¬ incoming.pkt.isWrite = true)
    (small : packetCount params incoming ≤ params.readBufferSize)
    (ran : ctrl.recvTimingReq params now incoming = .ok (after, labels)) : Awake params after := by
  obtain ⟨⟨reads, totalReads, writes, totalWrites, room⟩, responding, idle, writing, refusedWrite, refusedRead⟩ := awake
  obtain ⟨_, ran⟩ := of_panicIf ran
  obtain ⟨_, ran⟩ := of_panicIf ran
  obtain ⟨_, ran⟩ := of_panicIf ran
  rw [if_neg isRead] at ran
  obtain ⟨_, ran⟩ := of_require ran
  obtain ⟨_, ran⟩ := of_require ran
  split at ran
  next full =>
    cases ran
    refine ⟨⟨reads, totalReads, writes, totalWrites, room⟩, responding, idle, writing, refusedWrite, fun _ => ?_⟩
    unfold readQueueFull at full
    rw [totalReads, decide_eq_true_iff] at full
    -- the packet would fit if nothing were there
    by_cases queued : ctrl.readQueue = []
    · right
      intro nothing
      rw [queued, nothing] at full
      simp only [List.length_nil] at full
      omega
    · exact .inl queued
  next fits =>
    obtain ⟨⟨_, allThere, _⟩, adds, ran⟩ := of_bind ran
    obtain ⟨_, wakes, ran⟩ := of_bind ran
    cases ran
    obtain ⟨reading, helpers, queued, rfl, there⟩ := addToReadQueue_queued adds
    obtain ⟨kept, sameWrites, writeSize, totalWrites', length, grows, size, total⟩ := queued
    dsimp only at sameWrites writeSize totalWrites' length grows size total kept wakes
    -- the event is as it was, or it is scheduled now
    have event : ∃ event, after = { reading.ctrl with
        helpers
        nextReqEvent := event } ∧ (event = none → ctrl.nextReqEvent = none ∧ allThere = true) := by
      split at wakes
      next all =>
        cases wakes
        exact ⟨reading.ctrl.nextReqEvent, rfl, fun none => ⟨kept.nextReqEvent.symm.trans none, all⟩⟩
      next not =>
        obtain ⟨due, rfl⟩ := wake_ok wakes
        exact ⟨some due, rfl, nofun⟩
    obtain ⟨event, rfl, quiet⟩ := event
    refine ⟨⟨?_, ?_, ?_, ?_, ?_⟩, ?_, ?_, ?_, ?_, ?_⟩
    · show reading.ctrl.readQueueSize = reading.ctrl.readQueue.length
      omega
    · show reading.ctrl.totalReadQueueSize = reading.ctrl.readQueue.length
      omega
    · exact writeSize.trans (writes.trans (congrArg List.length sameWrites.symm))
    · exact totalWrites'.trans (totalWrites.trans (congrArg List.length sameWrites.symm))
    · show reading.ctrl.writeQueue.length ≤ params.writeBufferSize
      rw [sameWrites]
      exact room
    · show reading.ctrl.respQueue ≠ [] → reading.ctrl.respondEvent.isSome
      rw [kept.respQueue, kept.respondEvent]
      exact responding
    · show event = none → reading.ctrl.readQueue = [] ∧ reading.ctrl.writeQueue.length ≤ params.writeLowThreshold
      intro none
      obtain ⟨was, all⟩ := quiet none
      obtain ⟨empty, low⟩ := idle was
      have serviced := there all
      rw [sameWrites]
      refine ⟨List.length_eq_zero_iff.mp ?_, low⟩
      rw [empty, List.length_nil] at length
      omega
    · show reading.ctrl.busStateNext = .write → reading.ctrl.writeQueue ≠ []
      rw [kept.busStateNext, sameWrites]
      exact writing
    · show reading.ctrl.retryWrReq = true → params.writeLowThreshold < reading.ctrl.writeQueue.length
      rw [kept.retryWrReq, sameWrites]
      exact refusedWrite
    · show reading.ctrl.retryRdReq = true → reading.ctrl.readQueue ≠ [] ∨ reading.ctrl.respQueue ≠ []
      rw [kept.retryRdReq, kept.respQueue]
      intro refused
      refine (refusedRead refused).imp_left fun some => ?_
      have positive := List.length_pos_iff.mpr some
      exact List.length_pos_iff.mp (by omega)

theorem completeBurst_ok (ran : ctrl.completeBurst params now memPkt = .ok (after, labels)) : ∃ helpers, after = { ctrl with helpers } := by
  unfold completeBurst at ran
  split at ran
  · obtain ⟨_, _, ran⟩ := of_bind ran
    obtain ⟨_, _, ran⟩ := of_bind ran
    split at ran
    · obtain ⟨_, _, ran⟩ := of_bind ran
      cases ran
      exact ⟨_, rfl⟩
    · cases ran
      exact ⟨_, rfl⟩
  · obtain ⟨_, _, ran⟩ := of_bind ran
    cases ran
    exact ⟨_, rfl⟩

theorem schedule_ok {slot event : Option Tick} {due : Tick} (ran : schedule now slot due = .ok event) : event = some due := by
  obtain ⟨_, ran⟩ := of_require ran
  obtain ⟨_, ran⟩ := of_require ran
  cases ran
  rfl

theorem respond_ok (ran : { ctrl with respondEvent := none }.processRespondEvent params now allIntfDrained = .ok (after, labels)) :
    ∃ helpers rest event draining, (rest ≠ [] → event.isSome) ∧ after = { ctrl with
      helpers
      respQueue := rest
      respondEvent := event
      draining
      retryRdReq := false } := by
  unfold processRespondEvent at ran
  dsimp only at ran
  split at ran
  · cases ran
  next memPkt rest queue =>
    obtain ⟨⟨_, _⟩, completes, ran⟩ := of_bind ran
    obtain ⟨helpers, rfl⟩ := completeBurst_ok completes
    obtain ⟨⟨drained, _⟩, drains, ran⟩ := of_bind ran
    have shape : ∃ event draining, (rest ≠ [] → event.isSome) ∧ drained = { ctrl with
        helpers
        respQueue := rest
        respondEvent := event
        draining } := by
      split at drains
      · obtain ⟨_, drains⟩ := of_require drains
        obtain ⟨event, scheduled, drains⟩ := of_bind drains
        cases drains
        rw [schedule_ok scheduled]
        exact ⟨_, _, fun _ => rfl, rfl⟩
      · split at drains
        · cases drains
          exact ⟨_, _, fun some => absurd rfl some, rfl⟩
        · cases drains
          exact ⟨_, _, fun some => absurd rfl some, rfl⟩
    obtain ⟨event, draining, scheduled, rfl⟩ := shape
    refine ⟨helpers, rest, event, draining, scheduled, ?_⟩
    split at ran
    · cases ran
      rfl
    next quiet =>
      cases ran
      rw [Bool.eq_false_iff.mpr quiet]

theorem respond_awake (awake : Awake params ctrl)
    (ran : { ctrl with respondEvent := none }.processRespondEvent params now allIntfDrained = .ok (after, labels)) :
    Awake params after := by
  obtain ⟨⟨reads, totalReads, writes, totalWrites, room⟩, _, idle, writing, refusedWrite, _⟩ := awake
  obtain ⟨_, _, _, _, scheduled, rfl⟩ := respond_ok ran
  exact ⟨⟨reads, totalReads, writes, totalWrites, room⟩, scheduled, idle, writing, refusedWrite, nofun⟩

theorem logResponse_ok {dir : BusState} {id : Nat} {addr : Addr} (ran : ctrl.logResponse dir id addr = .ok after) :
    ∃ packetPriorities requestTimes, after = { ctrl with
      totalReadQueueSize := if dir = .read then ctrl.totalReadQueueSize - 1 else ctrl.totalReadQueueSize
      totalWriteQueueSize := if dir = .write then ctrl.totalWriteQueueSize - 1 else ctrl.totalWriteQueueSize
      packetPriorities
      requestTimes } := by
  cases dir with
  | read | write =>
    obtain ⟨_, ran⟩ := of_panicIf ran
    obtain ⟨_, ran⟩ := of_panicIf ran
    cases ran
    exact ⟨_, _, rfl⟩

theorem chosen_some {queue : List MemPacket} (found : chosen choice queue = some memPkt) :
    ∃ place, choice.place = some place ∧ queue[place]? = some memPkt ∧ choice.place.getD 0 = place := by
  unfold chosen at found
  split at found
  · cases found
  next place is => exact ⟨place, is, found, by rw [is]; rfl⟩

theorem length_eraseIdx {queue : List MemPacket} {place : Nat} (found : queue[place]? = some memPkt) :
    (queue.eraseIdx place).length + 1 = queue.length := by
  have inside := (List.getElem?_eq_some_iff.mp found).1
  rw [List.length_eraseIdx_of_lt inside]
  omega

theorem processRead_ok {switches : Option Bool} (counted : Counted params ctrl)
    (found : ctrl.readQueue ≠ [] → (chosen choice ctrl.readQueue).isSome)
    (ran : ctrl.processRead params now choice = .ok (after, switches)) :
    (after = ctrl ∧ ctrl.readQueue = [] ∧ switches = none ∧ ctrl.writeQueue.length ≤ params.writeLowThreshold) ∨
    (after = ctrl ∧ ctrl.readQueue = [] ∧ switches = some true ∧ ctrl.writeQueue ≠ []) ∨
    (∃ switchToWrites, switches = some switchToWrites ∧ (switchToWrites = true → ctrl.writeQueue ≠ []) ∧ Counted params after ∧
      after.respQueue ≠ [] ∧ after.respondEvent.isSome ∧ after.writeQueue = ctrl.writeQueue ∧
      after.busStateNext = ctrl.busStateNext ∧ after.retryWrReq = ctrl.retryWrReq ∧ after.nextReqEvent = ctrl.nextReqEvent) := by
  obtain ⟨reads, _, writes, totalWrites, room⟩ := counted
  unfold processRead at ran
  split at ran
  next empty =>
    have nothing : ctrl.readQueue = [] := List.length_eq_zero_iff.mp (reads ▸ empty)
    split at ran
    next more =>
      cases ran
      exact .inr (.inl ⟨rfl, nothing, rfl, fun none => more.1 (by rw [writes, none]; rfl)⟩)
    next few =>
      cases ran
      refine .inl ⟨rfl, nothing, rfl, ?_⟩
      by_contra above
      apply few
      rw [writes]
      exact ⟨by omega, .inr (by omega)⟩
  next some =>
    split at ran
    next none =>
      have there := found fun nothing => some (by rw [reads, nothing]; rfl)
      rw [none] at there
      cases there
    next toRead is =>
      obtain ⟨_, _, at', getD⟩ := chosen_some is
      have shorter := length_eraseIdx at'
      obtain ⟨_, ran⟩ := of_require ran
      obtain ⟨_, ran⟩ := of_require ran
      obtain ⟨_, logs, ran⟩ := of_bind ran
      obtain ⟨packetPriorities, requestTimes, rfl⟩ := logResponse_ok logs
      obtain ⟨responding, scheduled, ran⟩ := of_bind ran
      have event : ∃ event, event.isSome = true ∧ responding = { ctrl with
          readsThisTime := ctrl.readsThisTime + 1
          totalReadQueueSize := ctrl.totalReadQueueSize - 1
          readQueueSize := ctrl.readQueueSize - 1
          packetPriorities
          requestTimes
          respondEvent := event } := by
        split at scheduled
        · obtain ⟨event, schedules, scheduled⟩ := of_bind scheduled
          cases scheduled
          rw [schedule_ok schedules]
          exact ⟨_, rfl, rfl⟩
        · obtain ⟨_, scheduled⟩ := of_require scheduled
          obtain ⟨there, scheduled⟩ := of_require scheduled
          cases scheduled
          exact ⟨_, there, rfl⟩
      obtain ⟨event, isSome, rfl⟩ := event
      cases ran
      refine .inr (.inr ⟨_, rfl, ?_, ⟨?_, ?_, writes, totalWrites, room⟩, ?_, isSome, rfl, rfl, rfl, rfl⟩)
      · intro switch nothing
        rw [writes, nothing] at switch
        simp at switch
      · dsimp only
        rw [getD]
        omega
      · dsimp only
        rw [getD]
        omega
      · simp

theorem processWrite_ok {switches : Option Bool} (counted : Counted params ctrl)
    (some : ctrl.writeQueue ≠ []) (found : ctrl.writeQueue ≠ [] → (chosen choice ctrl.writeQueue).isSome)
    (ran : ctrl.processWrite params choice = .ok (after, switches)) :
    ∃ switchToReads, switches = Option.some switchToReads ∧ (switchToReads = false → after.writeQueue ≠ []) ∧ Counted params after ∧
      after.writeQueue.length < params.writeBufferSize ∧ after.readQueue = ctrl.readQueue ∧ after.respQueue = ctrl.respQueue ∧
      after.respondEvent = ctrl.respondEvent ∧ after.retryRdReq = ctrl.retryRdReq ∧ after.nextReqEvent = ctrl.nextReqEvent := by
  obtain ⟨reads, totalReads, _⟩ := counted
  unfold processWrite at ran
  split at ran
  next none =>
    have there := found some
    rw [none] at there
    cases there
  next memPkt is =>
    obtain ⟨_, _, at', getD⟩ := chosen_some is
    have shorter := length_eraseIdx at'
    obtain ⟨_, ran⟩ := of_require ran
    obtain ⟨_, logs, ran⟩ := of_bind ran
    obtain ⟨_, _, rfl⟩ := logResponse_ok logs
    cases ran
    refine ⟨_, rfl, ?_, ⟨reads, totalReads, ?_, ?_, ?_⟩, ?_, rfl, rfl, rfl, rfl, rfl⟩
    · intro stays nothing
      have zero : ctrl.writeQueueSize - 1 = 0 := by
        dsimp only at nothing
        rw [getD] at nothing
        rw [nothing, List.length_nil] at shorter
        omega
      rw [zero] at stays
      simp at stays
    · dsimp only
      rw [getD]
      omega
    · simp only [if_true]
      rw [getD]
      omega
    · dsimp only
      rw [getD]
      omega
    · dsimp only
      rw [getD]
      omega

theorem finishRequest_ok {nextReqTime : Tick} (ran : ctrl.finishRequest params now nextReqTime = .ok (after, labels)) :
    ∃ due, after = { ctrl with
      nextReqEvent := some due
      retryWrReq := ctrl.retryWrReq && !decide (ctrl.writeQueueSize < params.writeBufferSize) } := by
  obtain ⟨scheduled, schedules, ran⟩ := of_bind ran
  have event : ∃ due, scheduled = { ctrl with nextReqEvent := some due } := by
    split at schedules
    · obtain ⟨event, schedules', schedules⟩ := of_bind schedules
      cases schedules
      rw [schedule_ok schedules']
      exact ⟨_, rfl⟩
    next planned =>
      cases schedules
      obtain ⟨due, is⟩ := Option.ne_none_iff_exists'.mp (by simpa using planned)
      exact ⟨due, by rw [← is]⟩
  obtain ⟨due, rfl⟩ := event
  refine ⟨due, ?_⟩
  split at ran
  next retries =>
    cases ran
    rw [Bool.and_eq_true] at retries
    rw [retries.1, retries.2]
    rfl
  next quiet =>
    cases ran
    cases waiting : ctrl.retryWrReq with
    | false => rw [Bool.false_and]
    | true =>
      rw [waiting, Bool.true_and, Bool.not_eq_true] at quiet
      rw [quiet]
      rfl

theorem switchCommand_ok (ctrl : MemCtrl) : ∃ readsThisTime writesThisTime, ctrl.switchCommand = { ctrl with
    readsThisTime
    writesThisTime } := by
  unfold switchCommand
  split
  · split
    · exact ⟨_, _, rfl⟩
    · exact ⟨_, _, rfl⟩
  · exact ⟨_, _, rfl⟩

theorem drainIfDone_ok (ctrl : MemCtrl) (allIntfDrained : Bool) : ∃ draining made,
    ctrl.drainIfDone allIntfDrained = ({ ctrl with draining }, made) := by
  unfold drainIfDone
  split
  · exact ⟨_, _, rfl⟩
  · exact ⟨_, _, rfl⟩

theorem turnAround_ok (ctrl : MemCtrl) (allIntfDrained : Bool) : ∃ draining readsThisTime writesThisTime made,
    ctrl.turnAround allIntfDrained = ({ ctrl with
      draining
      readsThisTime
      writesThisTime
      busState := ctrl.busStateNext }, made) := by
  obtain ⟨readsThisTime, writesThisTime, switched⟩ := switchCommand_ok ctrl
  obtain ⟨draining, made, drained⟩ := drainIfDone_ok ctrl.switchCommand allIntfDrained
  refine ⟨draining, readsThisTime, writesThisTime, made, ?_⟩
  unfold turnAround
  rw [drained, switched]

theorem checkDrained_ok (ctrl : MemCtrl) (allIntfDrained : Bool) : ∃ draining made,
    ctrl.checkDrained allIntfDrained = ({ ctrl with draining }, made) := by
  unfold checkDrained
  split
  · exact ⟨_, _, rfl⟩
  · exact ⟨_, _, rfl⟩

theorem finish_awake {nextReqTime : Tick} (counted : Counted params ctrl)
    (responding : ctrl.respQueue ≠ [] → ctrl.respondEvent.isSome) (writing : ctrl.busStateNext = .write → ctrl.writeQueue ≠ [])
    (refusedWrite : ctrl.retryWrReq = true → params.writeLowThreshold < ctrl.writeQueue.length ∨
      ctrl.writeQueue.length < params.writeBufferSize)
    (refusedRead : ctrl.retryRdReq = true → ctrl.readQueue ≠ [] ∨ ctrl.respQueue ≠ [])
    (ran : ctrl.finishRequest params now nextReqTime = .ok (after, labels)) : Awake params after := by
  obtain ⟨_, rfl⟩ := finishRequest_ok ran
  refine ⟨⟨counted.reads, counted.totalReads, counted.writes, counted.totalWrites, counted.room⟩, responding, nofun, writing,
    fun waiting => ?_, refusedRead⟩
  rw [Bool.and_eq_true, Bool.not_eq_true', decide_eq_false_iff_not, counted.writes] at waiting
  exact (refusedWrite waiting.1).resolve_right waiting.2

theorem nextReq_awake (awake : Awake params ctrl) (free : choice.busy = false) (found : match ctrl.busStateNext with
      | .read => ctrl.readQueue ≠ [] → (chosen choice ctrl.readQueue).isSome
      | .write => ctrl.writeQueue ≠ [] → (chosen choice ctrl.writeQueue).isSome)
    (ran : { ctrl with nextReqEvent := none }.processNextReqEvent params now choice = .ok (after, labels)) :
    Awake params after := by
  obtain ⟨⟨reads, totalReads, writes, totalWrites, room⟩, responding, _, writing, refusedWrite, refusedRead⟩ := awake
  obtain ⟨draining, readsThisTime, writesThisTime, _, turned⟩ :=
    turnAround_ok { ctrl with nextReqEvent := none } choice.allIntfDrained
  unfold processNextReqEvent at ran
  rw [turned] at ran
  dsimp only at ran
  rw [free, if_neg Bool.false_ne_true] at ran
  cases state : ctrl.busStateNext with
  | read =>
    rw [state] at found ran
    obtain ⟨⟨middle, switches⟩, processes, ran⟩ := of_bind ran
    have counted : Counted params { ctrl with
        draining
        readsThisTime
        writesThisTime
        busState := .read
        busStateNext := .read
        nextReqEvent := none } := ⟨reads, totalReads, writes, totalWrites, room⟩
    obtain ⟨rfl, nothing, rfl, low⟩ | ⟨rfl, nothing, rfl, some⟩ |
      ⟨switchToWrites, rfl, some, counted', answers, scheduled, sameWrites, sameNext, sameRetry, _⟩ :=
        processRead_ok counted (by exact found) processes
    · obtain ⟨_, _, checked⟩ := checkDrained_ok { ctrl with
        draining
        readsThisTime
        writesThisTime
        busState := .read
        busStateNext := .read
        nextReqEvent := none } choice.allIntfDrained
      rw [checked] at ran
      cases ran
      exact ⟨⟨reads, totalReads, writes, totalWrites, room⟩, responding, fun _ => ⟨nothing, low⟩, nofun, refusedWrite, refusedRead⟩
    · obtain ⟨⟨finished, retried⟩, finishes, ran⟩ := of_bind ran
      cases ran
      apply finish_awake _ _ _ _ _ finishes
      · exact ⟨reads, totalReads, writes, totalWrites, room⟩
      · exact responding
      · exact fun _ => some
      · exact fun waiting => .inl (refusedWrite waiting)
      · exact refusedRead
    · obtain ⟨⟨finished, retried⟩, finishes, ran⟩ := of_bind ran
      cases ran
      have high : middle.retryWrReq = true → params.writeLowThreshold < middle.writeQueue.length ∨
          middle.writeQueue.length < params.writeBufferSize := by
        rw [sameRetry, sameWrites]
        exact fun waiting => .inl (refusedWrite waiting)
      cases switchToWrites with
      | true =>
        apply finish_awake _ _ _ _ _ finishes
        · exact ⟨counted'.reads, counted'.totalReads, counted'.writes, counted'.totalWrites, counted'.room⟩
        · exact fun _ => scheduled
        · intro _
          show middle.writeQueue ≠ []
          rw [sameWrites]
          exact some rfl
        · exact high
        · exact fun _ => .inr answers
      | false =>
        apply finish_awake counted' (fun _ => scheduled) _ high (fun _ => .inr answers) finishes
        rw [sameNext]
        nofun
  | write =>
    have pending := writing state
    rw [state] at found ran
    obtain ⟨⟨middle, switches⟩, processes, ran⟩ := of_bind ran
    have counted : Counted params { ctrl with
        draining
        readsThisTime
        writesThisTime
        busState := .write
        busStateNext := .write
        nextReqEvent := none } := ⟨reads, totalReads, writes, totalWrites, room⟩
    obtain ⟨switchToReads, rfl, some, counted', space, sameReads, sameResponses, sameEvent, sameRetry, _⟩ :=
      processWrite_ok counted pending (by exact found) processes
    obtain ⟨⟨finished, retried⟩, finishes, ran⟩ := of_bind ran
    cases ran
    have answering : middle.respQueue ≠ [] → middle.respondEvent.isSome := by
      rw [sameResponses, sameEvent]
      exact responding
    have waits : middle.retryRdReq = true → middle.readQueue ≠ [] ∨ middle.respQueue ≠ [] := by
      rw [sameRetry, sameReads, sameResponses]
      exact refusedRead
    cases switchToReads with
    | true =>
      apply finish_awake _ _ _ _ _ finishes
      · exact ⟨counted'.reads, counted'.totalReads, counted'.writes, counted'.totalWrites, counted'.room⟩
      · exact answering
      · nofun
      · exact fun _ => .inr space
      · exact waits
    | false => exact finish_awake counted' answering (fun _ => some rfl) (fun _ => .inr space) waits finishes

theorem drain_awake (awake : Awake params ctrl) (ran : ctrl.drain now allIntfDrained = .ok (after, labels)) : Awake params after := by
  obtain ⟨⟨reads, totalReads, writes, totalWrites, room⟩, responding, idle, writing, refusedWrite, refusedRead⟩ := awake
  unfold drain at ran
  split at ran
  · obtain ⟨_, wakes, ran⟩ := of_bind ran
    cases ran
    split at wakes
    · obtain ⟨_, rfl⟩ := wake_ok wakes
      exact ⟨⟨reads, totalReads, writes, totalWrites, room⟩, responding, nofun, writing, refusedWrite, refusedRead⟩
    · cases wakes
      exact ⟨⟨reads, totalReads, writes, totalWrites, room⟩, responding, idle, writing, refusedWrite, refusedRead⟩
  · cases ran
    exact ⟨⟨reads, totalReads, writes, totalWrites, room⟩, responding, idle, writing, refusedWrite, refusedRead⟩

theorem step_awake {event : Tick × Event} (awake : Awake params ctrl) (allowed : Served params ctrl event ∧ Roomy params ctrl event)
    (ran : step params ctrl event = .ok (after, labels)) : Awake params after := by
  obtain ⟨served, roomy⟩ := allowed
  obtain ⟨_, event⟩ := event
  cases event with
  | recvTimingReq incoming =>
    dsimp only [Served] at served
    by_cases isWrite : incoming.pkt.isWrite = true
    · exact recvWrite_awake awake isWrite (roomy isWrite) ran
    · rw [if_neg isWrite] at served
      exact recvRead_awake awake isWrite served ran
  | nextReq => exact nextReq_awake awake served.2.1 served.2.2 ran
  | respond => exact respond_awake awake ran
  | restart =>
    obtain ⟨event, schedules, ran⟩ := of_bind ran
    cases ran
    rw [schedule_ok schedules]
    obtain ⟨⟨reads, totalReads, writes, totalWrites, room⟩, responding, _, writing, refusedWrite, refusedRead⟩ := awake
    exact ⟨⟨reads, totalReads, writes, totalWrites, room⟩, responding, nofun, writing, refusedWrite, refusedRead⟩
  | drain => exact drain_awake awake ran

end Steps

theorem awake_initial (params : Params) : Awake params {} :=
  ⟨⟨rfl, rfl, rfl, rfl, Nat.zero_le _⟩, fun some => absurd rfl some, fun _ => ⟨rfl, Nat.zero_le _⟩, nofun, nofun, nofun⟩

/-- In every run in which no write is refused for want of room while the write queue is
at most at its low threshold, the retry that a requestor waits for is still to come. -/
theorem retry_to_come {events : List (Tick × Event)} {final : MemCtrl} {labels : List Label}
    (each : Each (step params) (fun ctrl event => Served params ctrl event ∧ Roomy params ctrl event) {} events)
    (ran : run (step params) {} events = .ok (final, labels)) :
    (final.retryWrReq = true → final.nextReqEvent.isSome) ∧
      (final.retryRdReq = true → final.nextReqEvent.isSome ∨ final.respondEvent.isSome) := by
  have awake := run_keeps _ (Awake params) (fun _ _ _ _ before allowed taken => step_awake before allowed taken)
    (awake_initial params) each ran
  have busy : final.readQueue ≠ [] ∨ params.writeLowThreshold < final.writeQueue.length → final.nextReqEvent.isSome := by
    intro some
    rw [Option.isSome_iff_ne_none]
    intro none
    obtain ⟨empty, _⟩ := awake.idle none
    obtain queued | high := some
    · exact queued empty
    · omega
  refine ⟨fun waiting => busy (.inr (awake.refusedWrite waiting)), fun waiting => ?_⟩
  exact (awake.refusedRead waiting).imp (fun queued => busy (.inl queued)) awake.responding

def fourEntries : Params where
  readBufferSize := 4
  writeBufferSize := 4
  writeHighThreshPerc := 85
  writeLowThreshPerc := 50
  minWritesPerSwitch := 1
  minReadsPerSwitch := 1
  frontendLatency := 10
  backendLatency := 10
  burstSize := 64
  contains := fun _ => true

def writeOf (id : Nat) (addr : Addr) (size : Nat) : Incoming where
  pkt := Packet.ofRequest { paddr := addr, size, id, flags := 0 } .writeReq []
  requestorId := 0

def takesFirst : Choice where
  place := some 0
  readyTime := 0
  nextReqTime := 0

/-- Two bursts are in the queue when a third and a fourth come, and then one more. -/
def fillingUp : List (Tick × Event) :=
  [(0, .recvTimingReq (writeOf 0 0x0 128)), (0, .recvTimingReq (writeOf 1 0x100 128)), (0, .recvTimingReq (writeOf 2 0x200 64))]

theorem fillingUp_retries : ∃ final labels, run (step fourEntries) {} fillingUp = .ok (final, labels) ∧
    final.retryWrReq = true ∧ final.nextReqEvent.isSome := by
  have each : Each (step fourEntries) (fun ctrl event => Served fourEntries ctrl event ∧ Roomy fourEntries ctrl event) {} fillingUp := by
    decide
  refine ⟨_, _, rfl, rfl, ?_⟩
  exact (retry_to_come each rfl).1 rfl

/-- One burst waits in the queue, too few to be written, when a packet of four comes. -/
def fourMore : List (Tick × Event) :=
  [(0, .recvTimingReq (writeOf 0 0x0 64)), (0, .nextReq takesFirst), (1, .recvTimingReq (writeOf 1 0x100 256))]

theorem fourMore_waits_forever : Each (step fourEntries) (Served fourEntries) {} fourMore ∧
    ∃ final labels, run (step fourEntries) {} fourMore = .ok (final, labels) ∧
      final.retryWrReq = true ∧ final.nextReqEvent = none := by
  have each : Each (step fourEntries) (Served fourEntries) {} fourMore := by decide
  exact ⟨each, _, _, rfl, rfl, rfl⟩

end ImcGem5.Mem.Dram.Proofs.Retries
