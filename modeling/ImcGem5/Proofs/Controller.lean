import ImcGem5.Mem.Controller

/-! What each operation of a controller can do, stated once. Every invariant of
the controllers is derived from these cases without unfolding the operations. -/

namespace ImcGem5.Mem.Proofs
open Lib List

variable {mem : AbstractMemory} {next ctrl : MemCtrl} {pkt result : Packet} {effects : List Effect} {now : Tick} {random : Nat}
  {labels : List MemLabel} {taken : Bool}

theorem hostRead_ok {address : Addr} {length : Nat} {bytes : List Byte} (ran : mem.hostRead address length = .ok bytes) :
    mem.range.backs address length = true ∧ bytes = mem.pmem.read address.toNat length := by
  unfold AbstractMemory.hostRead at ran
  split at ran
  · cases ran
    exact ⟨‹_›, rfl⟩
  · cases ran

theorem hostWrite_ok {next : AbstractMemory} {address : Addr} {bytes : List Byte} (ran : mem.hostWrite address bytes = .ok next) :
    mem.range.backs address bytes.length = true ∧ next = { mem with pmem := mem.pmem.write address.toNat bytes } := by
  unfold AbstractMemory.hostWrite at ran
  split at ran
  · cases ran
    exact ⟨‹_›, rfl⟩
  · cases ran

/-- A packet on its way through `perform` keeps its command, its address and the
identity of its request. -/
structure SameRequest (pkt result : Packet) : Prop where
  cmd : result.cmd = pkt.cmd
  id : result.req.id = pkt.req.id
  addr : result.addr = pkt.addr
  isSecure : result.isSecure = pkt.isSecure

theorem swap_same {next : AbstractMemory} (ran : mem.swap pkt = .ok (next, result, effects)) : SameRequest pkt result := by
  obtain ⟨_, _, ran⟩ := of_bind ran
  split at ran
  · obtain ⟨_, _, ran⟩ := of_bind ran
    cases ran
    exact ⟨rfl, rfl, rfl, rfl⟩
  · obtain ⟨_, _, ran⟩ := of_bind ran
    obtain ⟨_, _, ran⟩ := of_bind ran
    split at ran
    · obtain ⟨_, _, ran⟩ := of_bind ran
      obtain ⟨_, ran⟩ := of_require ran
      cases ran
      exact ⟨rfl, rfl, rfl, rfl⟩
    · obtain ⟨_, ran⟩ := of_require ran
      cases ran
      exact ⟨rfl, rfl, rfl, rfl⟩

theorem readAccess_same {next : AbstractMemory} (ran : mem.readAccess pkt = .ok (next, result, effects)) : SameRequest pkt result := by
  obtain ⟨_, ran⟩ := of_require ran
  obtain ⟨_, _, ran⟩ := of_bind ran
  split at ran
  · obtain ⟨_, ran⟩ := of_require ran
    obtain ⟨_, _, ran⟩ := of_bind ran
    cases ran
    exact ⟨rfl, rfl, rfl, rfl⟩
  · cases ran
    exact ⟨rfl, rfl, rfl, rfl⟩

theorem writeAccess_same {next : AbstractMemory} (ran : mem.writeAccess pkt = .ok (next, result, effects)) : SameRequest pkt result := by
  obtain ⟨_, _, ran⟩ := of_bind ran
  split at ran
  · obtain ⟨_, _, ran⟩ := of_bind ran
    obtain ⟨_, ran⟩ := of_require ran
    cases ran
    exact ⟨rfl, rfl, rfl, rfl⟩
  · cases ran
    exact ⟨rfl, rfl, rfl, rfl⟩

theorem perform_same {next : AbstractMemory} (ran : mem.perform pkt = .ok (next, result, effects)) : SameRequest pkt result := by
  unfold AbstractMemory.perform at ran
  split at ran
  · exact swap_same ran
  split at ran
  · exact readAccess_same ran
  split at ran
  · obtain ⟨_, ran⟩ := of_require ran
    cases ran
    exact ⟨rfl, rfl, rfl, rfl⟩
  split at ran
  · exact writeAccess_same ran
  · cases ran

theorem access_response {next : AbstractMemory} (ran : mem.access pkt = .ok (next, result, effects)) : result.req.id = pkt.req.id ∧
      (pkt.needsResponse = true → pkt.cacheResponding = false → result.cmd = pkt.cmd.responseCommand) := by
  unfold AbstractMemory.access at ran
  split at ran
  next responding =>
    cases ran
    refine ⟨rfl, fun _ quiet => ?_⟩
    rw [responding] at quiet
    cases quiet
  split at ran
  next clean =>
    cases ran
    refine ⟨rfl, fun needs _ => ?_⟩
    rcases Bool.or_eq_true _ _ ▸ clean with same | same
    all_goals
      unfold Packet.needsResponse at needs
      rw [eq_of_beq same] at needs
      cases needs
  obtain ⟨_, ran⟩ := of_require ran
  obtain ⟨⟨_, _⟩, performed, ran⟩ := of_bind ran
  obtain ⟨sameCmd, sameId, _⟩ := perform_same performed
  dsimp only at ran
  split at ran
  next needed =>
    obtain ⟨_, response, ran⟩ := of_bind ran
    rw [(Packet.makeResponse_ok needed).1] at response
    cases response
    cases ran
    exact ⟨sameId, fun _ _ => by simp [sameCmd]⟩
  next unneeded =>
    cases ran
    refine ⟨sameId, fun needs _ => ?_⟩
    refine absurd ?_ unneeded
    simpa [Packet.needsResponse, sameCmd] using needs

theorem access_matches {next : AbstractMemory}
    (ran : mem.access pkt = .ok (next, result, effects)) : result.addr = pkt.addr ∧ result.isSecure = pkt.isSecure := by
  unfold AbstractMemory.access at ran
  split at ran
  · cases ran
    exact ⟨rfl, rfl⟩
  split at ran
  · cases ran
    exact ⟨rfl, rfl⟩
  obtain ⟨_, ran⟩ := of_require ran
  obtain ⟨⟨_, _⟩, performed, ran⟩ := of_bind ran
  obtain ⟨_, _, sameAddr, sameSecure⟩ := perform_same performed
  dsimp only at ran
  split at ran
  next needed =>
    obtain ⟨_, response, ran⟩ := of_bind ran
    rw [(Packet.makeResponse_ok needed).1] at response
    cases response
    cases ran
    exact ⟨sameAddr, sameSecure⟩
  next unneeded =>
    cases ran
    exact ⟨sameAddr, sameSecure⟩

theorem insertBack_perm (deferred : DeferredPacket) (queue : List DeferredPacket) :
    (insertBack deferred queue).Perm (deferred :: queue) := by
  induction queue with
  | nil => exact .refl _
  | cons last earlier ih =>
    cases earlier with
    | nil => exact .refl _
    | cons =>
      simp only [insertBack]
      split
      · exact (List.Perm.cons last ih).trans (.swap _ _ _)
      · exact .refl _

theorem emplace_perm (deferred : DeferredPacket) (queue : List DeferredPacket) : (emplace deferred queue).Perm (deferred :: queue) := by
  have inserted := insertBack_perm deferred queue.reverse
  exact (reverse_perm _).trans (inserted.trans (.cons _ (reverse_perm queue)))

structure SameButBusy (ctrl next : MemCtrl) : Prop where
  mem : next.mem = ctrl.mem
  packetQueue : next.packetQueue = ctrl.packetQueue
  retryReq : next.retryReq = ctrl.retryReq

theorem occupy_same (ran : ctrl.occupy now pkt = .ok next) : SameButBusy ctrl next := by
  unfold MemCtrl.occupy at ran
  dsimp only at ran
  split at ran
  · obtain ⟨_, _, ran⟩ := of_bind ran
    cases ran
    exact ⟨rfl, rfl, rfl⟩
  · cases ran
    exact ⟨rfl, rfl, rfl⟩

theorem occupy_ok (unscheduled : ctrl.releaseEvent = none) (now : Tick) (pkt : Packet) : ∃ busy, ctrl.occupy now pkt = .ok busy := by
  unfold MemCtrl.occupy
  dsimp only
  split
  · have later : decide (now ≤ now + ctrl.duration pkt.size) = true := decide_eq_true (Nat.le_add_right _ _)
    simp only [schedule, unscheduled, Option.isNone_none, later, require_true, ok_bind]
    exact ⟨_, rfl⟩
  · exact ⟨ctrl, rfl⟩

theorem respondLater_ok {whenToSend : Tick} (ran : ctrl.respondLater now pkt whenToSend = .ok next) :
    next.mem = ctrl.mem ∧ next.retryReq = ctrl.retryReq ∧ next.isBusy = ctrl.isBusy ∧
      next.packetQueue = emplace ⟨whenToSend, pkt⟩ ctrl.packetQueue := by
  obtain ⟨_, ran⟩ := of_require ran
  split at ran
  · obtain ⟨_, _, ran⟩ := of_bind ran
    cases ran
    exact ⟨rfl, rfl, rfl, rfl⟩
  · cases ran
    exact ⟨rfl, rfl, rfl, rfl⟩

structure Ordinary (ctrl next : MemCtrl) (pkt : Packet) (effects : List Effect) : Prop where
  retryReq : next.retryReq = ctrl.retryReq
  isBusy : next.isBusy = ctrl.isBusy
  panicFree : pkt.cacheResponding = false
  answer : ∃ tick result,
    ctrl.mem.access { pkt with headerDelay := 0, payloadDelay := 0 } = .ok (next.mem, result, effects) ∧
    next.packetQueue = if pkt.needsResponse then emplace ⟨tick, result⟩ ctrl.packetQueue else ctrl.packetQueue

theorem ordinary_ok (ran : ctrl.ordinary now random pkt = .ok (next, effects)) : Ordinary ctrl next pkt effects := by
  obtain ⟨⟨_, result, _⟩, received, ran⟩ := of_bind ran
  obtain ⟨quiet, received⟩ := of_panicIf received
  obtain ⟨⟨_, _, _⟩, accessed, received⟩ := of_bind received
  cases received
  dsimp only at ran
  split at ran
  next needed =>
    obtain ⟨_, queued, ran⟩ := of_bind ran
    cases ran
    obtain ⟨sameMem, sameRetry, sameBusy, sameQueue⟩ := respondLater_ok queued
    refine ⟨sameRetry, sameBusy, quiet, ?_⟩
    rw [sameMem, sameQueue]
    exact ⟨_, result, accessed, (if_pos needed).symm⟩
  next unneeded =>
    cases ran
    refine ⟨rfl, rfl, quiet, 0, result, accessed, ?_⟩
    rw [if_neg unneeded]

inductive Processed (ctrl next : MemCtrl) (pkt : Packet) (labels : List MemLabel) : Prop where
  | inMemory {op : ImcOp} {effects : List Effect}
      (dispatched : dispatch pkt.req.flags = some op)
      (handled : AbstractMemory.handler op ctrl.mem pkt = .ok (next.mem, effects))
      (queue : next.packetQueue = ctrl.packetQueue)
      (made : labels = [.accepted pkt, .computed op pkt.req.id] ++ effects.map .effect)
  | ordinary {tick : Tick} {result : Packet} {effects : List Effect}
      (undispatched : dispatch pkt.req.flags = none)
      (quiet : pkt.cacheResponding = false)
      (accessed : ctrl.mem.access { pkt with headerDelay := 0, payloadDelay := 0 } = .ok (next.mem, result, effects))
      (queue : next.packetQueue = if pkt.needsResponse then emplace ⟨tick, result⟩ ctrl.packetQueue else ctrl.packetQueue)
      (made : labels = .accepted pkt :: effects.map .effect)

theorem process_cases (ran : ctrl.process now random pkt = .ok (next, labels)) : Processed ctrl next pkt labels := by
  obtain ⟨_, occupied, ran⟩ := of_bind ran
  obtain ⟨sameMem, sameQueue, _⟩ := occupy_same occupied
  split at ran
  next op dispatched =>
    obtain ⟨⟨_, effects⟩, handled, ran⟩ := of_bind ran
    cases ran
    rw [sameMem] at handled
    exact .inMemory dispatched handled sameQueue rfl
  next undispatched =>
    obtain ⟨⟨_, effects⟩, served, ran⟩ := of_bind ran
    cases ran
    obtain ⟨_, _, quiet, _, _, accessed, queue⟩ := ordinary_ok served
    rw [sameMem] at accessed
    rw [sameQueue] at queue
    exact .ordinary undispatched quiet accessed queue rfl

inductive Received (ctrl next : MemCtrl) (pkt : Packet) : Bool → List MemLabel → Prop where
  | refused (waiting : ctrl.retryReq = true ∨ ctrl.isBusy = true) (mem : next.mem = ctrl.mem)
      (queue : next.packetQueue = ctrl.packetQueue) : Received ctrl next pkt false [.refused pkt]
  | accepted {labels : List MemLabel} (idle : ctrl.isBusy = false) (fresh : ctrl.retryReq = false)
      (processed : Processed ctrl next pkt labels) : Received ctrl next pkt true labels

theorem recvTimingReq_cases (ran : ctrl.recvTimingReq now random pkt = .ok (next, taken, labels)) :
    Received ctrl next pkt taken labels := by
  obtain ⟨_, ran⟩ := of_panicIf ran
  obtain ⟨_, ran⟩ := of_panicIf ran
  split at ran
  next retrying =>
    cases ran
    exact .refused (.inl retrying) rfl rfl
  next fresh =>
    split at ran
    next busy =>
      cases ran
      exact .refused (.inr busy) rfl rfl
    next idle =>
      obtain ⟨⟨_, _⟩, processed, ran⟩ := of_bind ran
      cases ran
      exact .accepted (by simpa using idle) (by simpa using fresh) (process_cases processed)

theorem insertBack_getLast {deferred : DeferredPacket} {queue : List DeferredPacket} (waiting : queue ≠ []) :
    (insertBack deferred queue).getLast? = queue.getLast? := by
  induction queue with
  | nil => exact absurd rfl waiting
  | cons _ earlier ih =>
    cases earlier with
    | nil => rfl
    | cons next rest =>
      have inner := ih (cons_ne_nil next rest)
      simp only [insertBack]
      split
      · cases inserted : insertBack deferred (next :: rest) with
        | nil =>
          rw [inserted] at inner
          cases inner
        | cons =>
          rw [inserted] at inner
          rw [getLast?_cons_cons, getLast?_cons_cons, inner]
      · rw [getLast?_cons_cons]

theorem emplace_head {deferred : DeferredPacket} {queue : List DeferredPacket} (waiting : queue ≠ []) :
    (emplace deferred queue).head? = queue.head? := by
  have reversed : queue.reverse ≠ [] := by simpa using waiting
  rw [emplace, head?_reverse, insertBack_getLast reversed, getLast?_reverse]

theorem recvTimingReq_head (ran : ctrl.recvTimingReq now random pkt = .ok (next, taken, labels))
    {front : DeferredPacket} (first : ctrl.packetQueue.head? = some front) : next.packetQueue.head? = some front := by
  have waiting : ctrl.packetQueue ≠ [] := by
    intro empty
    rw [empty] at first
    cases first
  cases recvTimingReq_cases ran with
  | refused _ _ queue => rw [queue, first]
  | accepted _ _ processed =>
    cases processed with
    | inMemory _ _ queue => rw [queue, first]
    | ordinary _ _ _ queue =>
      rw [queue]
      split
      · rw [emplace_head waiting, first]
      · exact first

theorem offer_ok {offered : Nat × Packet} (ran : MemCtrl.offer now ctrl offered = .ok (next, labels)) :
    ∃ taken, ctrl.recvTimingReq now offered.1 offered.2 = .ok (next, taken, labels) := by
  obtain ⟨⟨_, taken, _⟩, received, ran⟩ := of_bind ran
  cases ran
  exact ⟨taken, received⟩

variable {during : List (Nat × Packet)}

theorem reenter_head (ran : ctrl.reenter now during = .ok (next, labels)) {front : DeferredPacket}
    (first : ctrl.packetQueue.head? = some front) : next.packetQueue.head? = some front := by
  refine run_invariant (fun reached _ => reached.packetQueue.head? = some front) ?_ first ran
  intro before past offered after made kept taken
  obtain ⟨_, received⟩ := offer_ok taken
  exact recvTimingReq_head received kept

structure SameContent (ctrl next : MemCtrl) : Prop where
  mem : next.mem = ctrl.mem
  packetQueue : next.packetQueue = ctrl.packetQueue

inductive Dequeued (ctrl next : MemCtrl) (now : Tick) (during : List (Nat × Packet)) (labels : List MemLabel) : Prop where
  | sent {middle : MemCtrl} {deferred : DeferredPacket} {early : List MemLabel}
      (reentered : ctrl.reenter now during = .ok (middle, early)) (front : middle.packetQueue.head? = some deferred)
      (mem : next.mem = middle.mem) (queue : next.packetQueue = middle.packetQueue.tail)
      (made : labels = early ++ [.responded deferred.pkt])
  | failed {middle : MemCtrl} (reentered : ctrl.reenter now during = .ok (middle, labels))
      (same : SameContent middle next)

theorem dequeue_cases (ran : ctrl.dequeue now during taken = .ok (next, labels)) : Dequeued ctrl next now during labels := by
  unfold MemCtrl.dequeue at ran
  split at ran
  · cases ran
  next deferred rest waiting =>
    have first : ctrl.packetQueue.head? = some deferred := by rw [waiting]; rfl
    obtain ⟨⟨_, _⟩, reentered, ran⟩ := of_bind ran
    have front := reenter_head reentered first
    dsimp only at ran
    split at ran
    · split at ran
      · obtain ⟨_, _, ran⟩ := of_bind ran
        cases ran
        exact .sent reentered front rfl rfl rfl
      · cases ran
        exact .sent reentered front rfl rfl rfl
    · cases ran
      exact .failed reentered ⟨rfl, rfl⟩

theorem release_cases (ran : ctrl.release = .ok (next, labels)) : SameContent ctrl next ∧ (labels = [] ∨ labels = [.sentRetry]) := by
  obtain ⟨_, ran⟩ := of_require ran
  split at ran
  · cases ran
    exact ⟨⟨rfl, rfl⟩, .inr rfl⟩
  · cases ran
    exact ⟨⟨rfl, rfl⟩, .inl rfl⟩

def Offered (allowed : MemCtrl → Packet → Prop) (ctrl : MemCtrl) : MemEvent → Prop
  | .recvTimingReq _ _ pkt => allowed ctrl pkt
  | .release => True
  | .dequeue now during _ =>
    Each (MemCtrl.offer now) (fun reached offered => allowed reached offered.2) { ctrl with dequeueEvent := none } during
  | .recvRespRetry now during _ =>
    Each (MemCtrl.offer now) (fun reached offered => allowed reached offered.2) ctrl during

/-- What has to be checked of a property of memory, queue and history: requests,
responses and retries. -/
structure Preserved (allowed : MemCtrl → Packet → Prop) (holds : MemCtrl → List MemLabel → Prop) : Prop where
  content : ∀ {ctrl next past}, SameContent ctrl next → holds ctrl past → holds next past
  received : ∀ {ctrl next now random pkt taken past labels}, holds ctrl past → allowed ctrl pkt →
    ctrl.recvTimingReq now random pkt = .ok (next, taken, labels) → holds next (past ++ labels)
  responded : ∀ {ctrl next past} {deferred : DeferredPacket}, holds ctrl past → ctrl.packetQueue.head? = some deferred →
    next.mem = ctrl.mem → next.packetQueue = ctrl.packetQueue.tail → holds next (past ++ [.responded deferred.pkt])
  retried : ∀ {ctrl past}, holds ctrl past → holds ctrl (past ++ [.sentRetry])

section
variable {allowed : MemCtrl → Packet → Prop} {holds : MemCtrl → List MemLabel → Prop}

section

variable (preserved : Preserved allowed holds)
include preserved

variable {ctrl : MemCtrl} {labels : List MemLabel}

theorem Preserved.dequeue {next : MemCtrl} {now : Tick} {taken : Bool} {past : List MemLabel} (kept : holds ctrl past)
    (each : Each (MemCtrl.offer now) (fun reached offered => allowed reached offered.2) ctrl during)
    (ran : ctrl.dequeue now during taken = .ok (next, labels)) : holds next (past ++ labels) := by
  have during_kept : ∀ {middle early}, ctrl.reenter now during = .ok (middle, early) → holds middle (past ++ early) := by
    intro middle early reentered
    refine run_preserves _ holds ?_ kept each reentered
    intro before earlier offered after made held permitted taken
    obtain ⟨_, received⟩ := offer_ok taken
    exact preserved.received held permitted received
  cases dequeue_cases ran with
  | sent reentered front mem queue made =>
    rw [made, ← append_assoc]
    exact preserved.responded (during_kept reentered) front mem queue
  | failed reentered same => exact preserved.content same (during_kept reentered)

variable {event : MemEvent}

theorem Preserved.step {next : MemCtrl} {past : List MemLabel} (kept : holds ctrl past) (offered : Offered allowed ctrl event)
    (taken : ctrl.step event = .ok (next, labels)) : holds next (past ++ labels) := by
  cases event with
  | recvTimingReq =>
    obtain ⟨_, received⟩ := offer_ok taken
    exact preserved.received kept offered received
  | release =>
    obtain ⟨same, rfl | rfl⟩ := release_cases taken
    · rw [append_nil]
      exact preserved.content same kept
    · exact preserved.retried (preserved.content same kept)
  | dequeue =>
    have fired : SameContent ctrl { ctrl with dequeueEvent := none } := ⟨rfl, rfl⟩
    exact preserved.dequeue (preserved.content fired kept) offered taken
  | recvRespRetry =>
    obtain ⟨_, taken⟩ := of_require taken
    exact preserved.dequeue kept offered taken

theorem Preserved.run {final : MemCtrl} {events : List MemEvent}
    (start : holds ctrl []) (each : Each MemCtrl.step (Offered allowed) ctrl events)
    (ran : run MemCtrl.step ctrl events = .ok (final, labels)) : holds final labels := by
  have reached := run_preserves (Offered allowed) holds ?_ start each ran
  · simpa using reached
  · intro before past event after made kept offered taken
    exact preserved.step kept offered taken

end

end

theorem offered_any : Offered (fun _ _ => True) ctrl event := by
  cases event with
  | recvTimingReq => trivial
  | release => trivial
  | dequeue | recvRespRetry => exact each_of_forall (fun _ _ _ => trivial) _

theorem step_quiet_iff (allowed : MemCtrl → Packet → Prop) (quiet : List MemLabel → Prop) (nil : quiet [])
    (append : ∀ early late, quiet (early ++ late) ↔ quiet early ∧ quiet late) (responded : ∀ pkt, quiet [.responded pkt])
    (retried : quiet [.sentRetry])
    (exact : ∀ {ctrl next now random pkt taken labels}, ctrl.recvTimingReq now random pkt = .ok (next, taken, labels) →
      (quiet labels ↔ allowed ctrl pkt))
    (taken : ctrl.step event = .ok (next, labels)) : quiet labels ↔ Offered allowed ctrl event := by
  have offers : ∀ {now ctrl during middle early}, MemCtrl.reenter ctrl now during = .ok (middle, early) →
      (quiet early ↔ Each (MemCtrl.offer now) (fun reached offered => allowed reached offered.2) ctrl during) := by
    intro now ctrl during middle early reentered
    refine run_quiet_iff _ quiet nil append ?_ reentered
    intro before offered after made taken
    obtain ⟨answer, received⟩ := offer_ok taken
    exact exact received
  have dequeued : ∀ {now ctrl during}, Dequeued ctrl next now during labels →
      (quiet labels ↔ Each (MemCtrl.offer now) (fun reached offered => allowed reached offered.2) ctrl during) := by
    intro now ctrl during ends
    cases ends with
    | sent reentered _ _ _ made =>
      rw [made, append, offers reentered]
      exact ⟨fun both => both.1, fun clean => ⟨clean, responded _⟩⟩
    | failed reentered => exact offers reentered
  cases event with
  | recvTimingReq =>
    obtain ⟨answer, received⟩ := offer_ok taken
    exact exact received
  | release =>
    obtain ⟨_, rfl | rfl⟩ := release_cases taken
    · exact ⟨fun _ => trivial, fun _ => nil⟩
    · exact ⟨fun _ => trivial, fun _ => retried⟩
  | dequeue => exact dequeued (dequeue_cases taken)
  | recvRespRetry =>
    obtain ⟨_, taken⟩ := of_require taken
    exact dequeued (dequeue_cases taken)

def idleMemory : MemCtrl :=
  { mem := { range := ⟨0, 4096⟩, writeable := true, pmem := fun _ => 0, lockedAddrList := [] }, duration := fun _ => 0 }

def firstRead (flags : Flags) : Packet :=
  .ofRequest { id := 0, paddr := 0, size := 32, flags } .readReq (replicate 32 0)

end ImcGem5.Mem.Proofs
