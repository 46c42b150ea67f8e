import ImcGem5.Proofs.Controller

/-! The dequeue event. Insertions never get in front of the first response, and every handler
leaves the event scheduled no earlier than that response is due, unless the peer has yet to ask
for it again. -/

namespace ImcGem5.Mem.Proofs.Timely
open Lib List

def ticks (ctrl : MemCtrl) : List Tick := ctrl.packetQueue.map (·.tick)

structure SamePending (ctrl next : MemCtrl) : Prop where
  ticks : ticks next = ticks ctrl
  retryResp : next.retryResp = ctrl.retryResp
  dequeueEvent : next.dequeueEvent = ctrl.dequeueEvent

inductive Arrives (now : Tick) (ctrl next : MemCtrl) : Prop where
  | nothing (same : SamePending ctrl next)
  | queued {deferred : DeferredPacket} (later : now ≤ deferred.tick)
      (queue : next.packetQueue = emplace deferred ctrl.packetQueue) (retryResp : next.retryResp = ctrl.retryResp)
      (held : ctrl.retryResp = true ∨ ctrl.dequeueEvent.isSome = true) (dequeueEvent : next.dequeueEvent = ctrl.dequeueEvent)
  | scheduled {deferred : DeferredPacket} {due : Tick} (later : now ≤ deferred.tick)
      (queue : next.packetQueue = emplace deferred ctrl.packetQueue) (retryResp : next.retryResp = ctrl.retryResp)
      (idle : ctrl.retryResp = false) (unscheduled : ctrl.dequeueEvent = none)
      (dequeueEvent : next.dequeueEvent = some due) (future : now ≤ due)
      (last : (ticks next).getLast? = some due)

variable {now : Tick} {ctrl next : MemCtrl} {pkt done : Packet} {random : Nat} {labels : List MemLabel}

theorem schedule_ok {due : Tick} {slot event : Option Tick} (ran : schedule now slot due = .ok event) : event = some due ∧ now ≤ due := by
  obtain ⟨_, ran⟩ := of_require ran
  obtain ⟨future, ran⟩ := of_require ran
  cases ran
  exact ⟨rfl, of_decide_eq_true future⟩

theorem reschedule_ok {due : Tick} {event : Option Tick} (ran : reschedule now due = .ok event) : event = some due := by
  obtain ⟨_, ran⟩ := of_require ran
  cases ran
  rfl

theorem occupy_pending (ran : ctrl.occupy now pkt = .ok next) :
    next.packetQueue = ctrl.packetQueue ∧ next.retryResp = ctrl.retryResp ∧ next.dequeueEvent = ctrl.dequeueEvent := by
  unfold MemCtrl.occupy at ran
  dsimp only at ran
  split at ran
  · obtain ⟨_, _, ran⟩ := of_bind ran
    cases ran
    exact ⟨rfl, rfl, rfl⟩
  · cases ran
    exact ⟨rfl, rfl, rfl⟩

theorem emplace_ne_nil (deferred : DeferredPacket) (queue : List DeferredPacket) : emplace deferred queue ≠ [] := by
  intro empty
  have length := (emplace_perm deferred queue).length_eq
  rw [empty] at length
  cases length

theorem respondLater_arrives {whenToSend : Tick} (later : now ≤ whenToSend)
    (ran : ctrl.respondLater now pkt whenToSend = .ok next) : Arrives now ctrl next := by
  obtain ⟨_, ran⟩ := of_require ran
  split at ran
  next idle =>
    obtain ⟨_, scheduled, ran⟩ := of_bind ran
    obtain ⟨rfl, future⟩ := schedule_ok scheduled
    cases ran
    rw [Bool.and_eq_true, Bool.not_eq_true'] at idle
    refine @Arrives.scheduled _ _ _ ⟨whenToSend, pkt⟩ _ later rfl rfl idle.1 (Option.isNone_iff_eq_none.mp idle.2) rfl future ?_
    cases found : (emplace ⟨whenToSend, pkt⟩ ctrl.packetQueue).getLast? with
    | none => exact absurd (getLast?_eq_none_iff.mp found) (emplace_ne_nil _ _)
    | some =>
      rw [ticks, getLast?_map, found]
      rfl
  next busy =>
    cases ran
    refine @Arrives.queued _ _ _ ⟨whenToSend, pkt⟩ later rfl rfl ?_ rfl
    cases retry : ctrl.retryResp with
    | true => exact .inl rfl
    | false => exact .inr (Option.isSome_iff_ne_none.mpr (by simpa [retry] using busy))

theorem ordinary_arrives {effects : List Effect} (ran : ctrl.ordinary now random pkt = .ok (next, effects)) : Arrives now ctrl next := by
  obtain ⟨⟨_, _⟩, received, ran⟩ := of_bind ran
  obtain ⟨_, received⟩ := of_panicIf received
  obtain ⟨⟨_, _⟩, _, received⟩ := of_bind received
  cases received
  dsimp only at ran
  split at ran
  · obtain ⟨last, queued, ran⟩ := of_bind ran
    cases ran
    have arrives := respondLater_arrives (Nat.le_trans (Nat.le_add_right _ _) (Nat.le_add_right _ _)) queued
    cases arrives with
    | nothing same => exact .nothing ⟨same.ticks, same.retryResp, same.dequeueEvent⟩
    | queued later queue retryResp held dequeueEvent => exact .queued later queue retryResp held dequeueEvent
    | scheduled later queue retryResp idle unscheduled dequeueEvent future last =>
      exact .scheduled later queue retryResp idle unscheduled dequeueEvent future last
  · cases ran
    exact .nothing ⟨rfl, rfl, rfl⟩

theorem process_arrives (ran : ctrl.process now random pkt = .ok (next, labels)) : Arrives now ctrl next := by
  obtain ⟨_, occupied, ran⟩ := of_bind ran
  obtain ⟨sameQueue, sameRetry, sameEvent⟩ := occupy_pending occupied
  split at ran
  · obtain ⟨⟨_, effects⟩, _, ran⟩ := of_bind ran
    cases ran
    exact .nothing ⟨congrArg (·.map (·.tick)) sameQueue, sameRetry, sameEvent⟩
  · obtain ⟨⟨last, effects⟩, served, ran⟩ := of_bind ran
    cases ran
    cases ordinary_arrives served with
    | nothing same =>
      refine .nothing ⟨?_, same.retryResp.trans sameRetry, same.dequeueEvent.trans sameEvent⟩
      rw [same.ticks, ticks, ticks, sameQueue]
    | queued later queue retryResp held dequeueEvent =>
      rw [sameQueue] at queue
      rw [sameRetry] at retryResp held
      rw [sameEvent] at held dequeueEvent
      exact .queued later queue retryResp held dequeueEvent
    | scheduled later queue retryResp idle unscheduled dequeueEvent future last =>
      rw [sameQueue] at queue
      rw [sameRetry] at retryResp idle
      rw [sameEvent] at unscheduled
      exact .scheduled later queue retryResp idle unscheduled dequeueEvent future last

theorem recvTimingReq_arrives {taken : Bool} (ran : ctrl.recvTimingReq now random pkt = .ok (next, taken, labels)) :
    Arrives now ctrl next := by
  obtain ⟨_, ran⟩ := of_panicIf ran
  obtain ⟨_, ran⟩ := of_panicIf ran
  split at ran
  · cases ran
    exact .nothing ⟨rfl, rfl, rfl⟩
  · split at ran
    · cases ran
      exact .nothing ⟨rfl, rfl, rfl⟩
    · obtain ⟨⟨_, _⟩, processed, ran⟩ := of_bind ran
      cases ran
      exact process_arrives processed

/-- The invariant: a queued response is due or awaits a retry. -/
structure Awake (clock : Tick) (ctrl : MemCtrl) : Prop where
  live : ctrl.retryResp = false → ctrl.packetQueue ≠ [] → ctrl.dequeueEvent.isSome = true
  due : ∀ due, ctrl.dequeueEvent = some due → ∃ front, (ticks ctrl).head? = some front ∧ front ≤ due
  refused : ctrl.retryResp = true → ∃ front, (ticks ctrl).head? = some front ∧ front ≤ clock
  spare : ctrl.retryResp = true → ctrl.dequeueEvent.isSome = true → 2 ≤ (ticks ctrl).length

structure Sending (now : Tick) (ctrl : MemCtrl) : Prop where
  front : ∃ front, (ticks ctrl).head? = some front ∧ front ≤ now ∧ ∀ due, ctrl.dequeueEvent = some due → front ≤ due
  spare : ctrl.dequeueEvent.isSome = true → 2 ≤ (ticks ctrl).length

theorem ticks_emplace_head {deferred : DeferredPacket} (waiting : ctrl.packetQueue ≠ [])
    (queue : next.packetQueue = emplace deferred ctrl.packetQueue) : (ticks next).head? = (ticks ctrl).head? := by
  rw [ticks, ticks, head?_map, head?_map, queue, emplace_head waiting]

theorem ticks_emplace_length {deferred : DeferredPacket}
    (queue : next.packetQueue = emplace deferred ctrl.packetQueue) : (ticks next).length = (ticks ctrl).length + 1 := by
  rw [ticks, ticks, length_map, length_map, queue, (emplace_perm deferred ctrl.packetQueue).length_eq, length_cons]

theorem head_nonempty {front : Tick} (head : (ticks ctrl).head? = some front) : ctrl.packetQueue ≠ [] := by
  intro empty
  rw [ticks, empty] at head
  cases head

theorem Sending.arrives (sending : Sending now ctrl) (arrives : Arrives now ctrl next) : Sending now next := by
  obtain ⟨front, head, passed, _⟩ := sending.front
  have waiting := head_nonempty head
  cases arrives with
  | nothing same =>
    constructor
    · rw [same.ticks, same.dequeueEvent]
      exact sending.front
    · rw [same.ticks, same.dequeueEvent]
      exact sending.spare
  | queued _ queue _ _ dequeueEvent =>
    constructor
    · rw [ticks_emplace_head waiting queue, dequeueEvent]
      exact sending.front
    · rw [ticks_emplace_length queue, dequeueEvent]
      intro scheduled
      exact Nat.le_succ_of_le (sending.spare scheduled)
  | @scheduled deferred due later queue retryResp idle unscheduled dequeueEvent future last =>
    constructor
    · rw [ticks_emplace_head waiting queue]
      refine ⟨front, head, passed, fun _ same => ?_⟩
      rw [dequeueEvent] at same
      cases same
      exact Nat.le_trans passed future
    · rw [ticks_emplace_length queue]
      intro _
      have some : (ticks ctrl).length ≠ 0 := by
        rw [ticks, length_map]
        exact fun zero => waiting (eq_nil_of_length_eq_zero zero)
      omega

theorem Sending.reenter {during : List (Nat × Packet)}
    (sending : Sending now ctrl) (ran : ctrl.reenter now during = .ok (next, labels)) : Sending now next := by
  refine run_invariant (fun reached _ => Sending now reached) ?_ sending ran
  intro before past offered after made kept taken
  obtain ⟨_, received⟩ := offer_ok taken
  exact kept.arrives (recvTimingReq_arrives received)

theorem Sending.dequeue {during : List (Nat × Packet)} {taken : Bool}
    (sending : Sending now ctrl) (ran : ctrl.dequeue now during taken = .ok (next, labels)) : Awake now next := by
  unfold MemCtrl.dequeue at ran
  split at ran
  · cases ran
  next deferred rest _ =>
    obtain ⟨⟨middle, _⟩, reentered, ran⟩ := of_bind ran
    obtain ⟨⟨front, head, passed, before⟩, spare⟩ := sending.reenter reentered
    dsimp only at ran
    split at ran
    · split at ran
      next second found =>
        obtain ⟨event, scheduled, ran⟩ := of_bind ran
        cases reschedule_ok scheduled
        cases ran
        refine ⟨fun _ _ => rfl, ?_, nofun, nofun⟩
        intro due same
        cases same
        refine ⟨second.tick, ?_, Nat.le_max_left _ _⟩
        rw [ticks, head?_map, found]
        rfl
      next last =>
        cases ran
        have empty : middle.packetQueue.tail = [] := head?_eq_none_iff.mp last
        have short : ¬2 ≤ (ticks middle).length := by
          rw [ticks, length_map]
          intro long
          have rest := congrArg List.length empty
          rw [length_tail] at rest
          have zero : middle.packetQueue.length - 1 = 0 := rest
          omega
        have unscheduled : middle.dequeueEvent = none := by
          cases event : middle.dequeueEvent with
          | none => rfl
          | some => exact absurd (spare (by rw [event]; rfl)) short
        refine ⟨fun _ waiting => absurd empty waiting, ?_, nofun, nofun⟩
        intro due same
        rw [unscheduled] at same
        cases same
    · cases ran
      exact ⟨nofun, fun due same => ⟨front, head, before due same⟩, fun _ => ⟨front, head, passed⟩, fun _ => spare⟩

theorem Awake.same {clock : Tick} (awake : Awake clock ctrl) (later : clock ≤ now) (same : SamePending ctrl next) : Awake now next := by
  obtain ⟨sameTicks, sameRetry, sameEvent⟩ := same
  have queues : next.packetQueue = [] ↔ ctrl.packetQueue = [] := by
    have lengths := congrArg List.length sameTicks
    rw [ticks, ticks, length_map, length_map] at lengths
    rw [← length_eq_zero_iff, ← length_eq_zero_iff, lengths]
  constructor
  · rw [sameRetry, sameEvent, Ne, queues]
    exact awake.live
  · rw [sameTicks, sameEvent]
    exact awake.due
  · rw [sameTicks, sameRetry]
    intro retry
    obtain ⟨front, head, passed⟩ := awake.refused retry
    exact ⟨front, head, Nat.le_trans passed later⟩
  · rw [sameTicks, sameRetry, sameEvent]
    exact awake.spare

theorem Awake.arrives {clock : Tick} (awake : Awake clock ctrl) (later : clock ≤ now)
    (arrives : Arrives now ctrl next) : Awake now next := by
  cases arrives with
  | nothing same => exact awake.same later same
  | queued _ queue retryResp held dequeueEvent =>
    have waiting : ctrl.packetQueue ≠ [] := by
      obtain retry | scheduled := held
      · obtain ⟨front, head, _⟩ := awake.refused retry
        exact head_nonempty head
      · obtain ⟨due, event⟩ := Option.isSome_iff_exists.mp scheduled
        obtain ⟨front, head, _⟩ := awake.due due event
        exact head_nonempty head
    constructor
    · rw [retryResp, dequeueEvent]
      exact fun idle _ => awake.live idle waiting
    · rw [ticks_emplace_head waiting queue, dequeueEvent]
      exact awake.due
    · rw [ticks_emplace_head waiting queue, retryResp]
      intro retry
      obtain ⟨front, head, passed⟩ := awake.refused retry
      exact ⟨front, head, Nat.le_trans passed later⟩
    · rw [ticks_emplace_length queue, retryResp, dequeueEvent]
      exact fun retry scheduled => Nat.le_succ_of_le (awake.spare retry scheduled)
  | @scheduled deferred due future queue retryResp idle unscheduled dequeueEvent ahead last =>
    have quiet : next.retryResp = true → False := by
      rw [retryResp, idle]
      nofun
    refine ⟨fun _ _ => by rw [dequeueEvent]; rfl, ?_, fun retry => absurd retry quiet, fun retry => absurd retry quiet⟩
    intro other same
    rw [dequeueEvent] at same
    cases same
    have empty : ctrl.packetQueue = [] := by
      by_contra waiting
      have event := awake.live idle waiting
      rw [unscheduled] at event
      cases event
    have alone : ticks next = [deferred.tick] := by
      rw [ticks, queue, empty]
      rfl
    rw [alone] at last ⊢
    cases last
    exact ⟨deferred.tick, rfl, Nat.le_refl _⟩

theorem release_pending (ran : ctrl.release = .ok (next, labels)) : SamePending ctrl next := by
  obtain ⟨_, ran⟩ := of_require ran
  split at ran
  · cases ran
    exact ⟨rfl, rfl, rfl⟩
  · cases ran
    exact ⟨rfl, rfl, rfl⟩

theorem satisfyFromQueue_ticks {queue after : List DeferredPacket}
    (ran : MemCtrl.satisfyFromQueue pkt queue = .ok (done, after)) : after.map (·.tick) = queue.map (·.tick) := by
  induction queue generalizing pkt done after with
  | nil =>
    cases ran
    rfl
  | cons _ _ ih =>
    obtain ⟨⟨_, _⟩, _, ran⟩ := of_bind ran
    dsimp only at ran
    split at ran
    · cases ran
      rfl
    · obtain ⟨⟨_, _⟩, satisfied, ran⟩ := of_bind ran
      cases ran
      rw [map_cons, map_cons, ih satisfied]

theorem functional_pending (ran : ctrl.functional pkt = .ok (next, done)) : SamePending ctrl next := by
  obtain ⟨⟨_, _⟩, _, ran⟩ := of_bind ran
  obtain ⟨⟨_, _⟩, satisfied, ran⟩ := of_bind ran
  cases ran
  exact ⟨satisfyFromQueue_ticks satisfied, rfl, rfl⟩

theorem recvFunctional_pending {which : Controller} (ran : which.recvFunctional ctrl pkt = .ok (next, done)) : SamePending ctrl next := by
  cases which with
  | pimCtrl => exact functional_pending ran
  | simpleMemory =>
    unfold Controller.recvFunctional SimpleMemory.recvFunctional at ran
    dsimp only at ran
    split at ran
    · obtain ⟨⟨_, _⟩, _, ran⟩ := of_bind ran
      obtain ⟨_, _, ran⟩ := of_bind ran
      cases ran
      exact ⟨rfl, rfl, rfl⟩
    · exact functional_pending ran

structure Timed where
  ctrl : MemCtrl
  clock : Tick

/-- The tick at which something happens; what carries none happens at the current tick. -/
def tickOf (clock : Tick) : CtrlEvent → Tick
  | .timing (.recvTimingReq now _ _) => now
  | .timing (.dequeue now _ _) => now
  | .timing (.recvRespRetry now _ _) => now
  | _ => clock

def timedStep (which : Controller) : Step Timed CtrlEvent MemLabel Abort := fun timed event => do
  let (ctrl, labels) ← which.step timed.ctrl event
  return (⟨ctrl, tickOf timed.clock event⟩, labels)

def OnTime (timed : Timed) (event : CtrlEvent) : Prop :=
  timed.clock ≤ tickOf timed.clock event ∧
    match event with
    | .timing (.dequeue now _ _) => timed.ctrl.dequeueEvent = some now
    | _ => True

theorem awake_step {which : Controller} {timed next : Timed} {event : CtrlEvent}
    (awake : Awake timed.clock timed.ctrl) (onTime : OnTime timed event)
    (taken : timedStep which timed event = .ok (next, labels)) : Awake next.clock next.ctrl := by
  obtain ⟨⟨ctrl, _⟩, stepped, taken⟩ := of_bind taken
  cases taken
  obtain ⟨later, fires⟩ := onTime
  cases event with
  | atomic =>
    obtain ⟨⟨last, turned, _⟩, received, stepped⟩ := of_bind stepped
    obtain ⟨_, received⟩ := of_panicIf received
    obtain ⟨⟨_, answer, _⟩, _, received⟩ := of_bind received
    cases received
    cases stepped
    exact awake.same later ⟨rfl, rfl, rfl⟩
  | functional =>
    obtain ⟨⟨last, turned⟩, received, stepped⟩ := of_bind stepped
    cases stepped
    exact awake.same later (recvFunctional_pending received)
  | timing event =>
    cases event with
    | recvTimingReq =>
      obtain ⟨answer, received⟩ := offer_ok stepped
      exact awake.arrives later (recvTimingReq_arrives received)
    | release => exact awake.same later (release_pending stepped)
    | dequeue now =>
      obtain ⟨front, head, passed⟩ := awake.due now fires
      have sending : Sending now { timed.ctrl with dequeueEvent := none } := ⟨⟨front, head, passed, nofun⟩, nofun⟩
      exact sending.dequeue stepped
    | recvRespRetry now =>
      obtain ⟨retry, stepped⟩ := of_require stepped
      obtain ⟨front, head, passed⟩ := awake.refused retry
      have before : ∀ due, timed.ctrl.dequeueEvent = some due → front ≤ due := by
        intro due event
        obtain ⟨_, same, bound⟩ := awake.due due event
        rw [head] at same
        cases same
        exact bound
      have sending : Sending now timed.ctrl := ⟨⟨front, head, Nat.le_trans passed later, before⟩, awake.spare retry⟩
      exact sending.dequeue stepped

structure Fresh (ctrl : MemCtrl) : Prop where
  packetQueue : ctrl.packetQueue = []
  retryResp : ctrl.retryResp = false
  dequeueEvent : ctrl.dequeueEvent = none

theorem Fresh.awake (fresh : Fresh ctrl) (clock : Tick) : Awake clock ctrl where
  live _ waiting := absurd fresh.packetQueue waiting
  due due event := by
    rw [fresh.dequeueEvent] at event
    cases event
  refused retry := by
    rw [fresh.retryResp] at retry
    cases retry
  spare retry := by
    rw [fresh.retryResp] at retry
    cases retry

/-- Whenever responses wait and the peer owes no retry, the event is scheduled no earlier than
the first of them is due, and an event that fires hands over no response before its tick. -/
theorem responses_timely {which : Controller} {ctrl : MemCtrl} {clock : Tick} {final : Timed} {events : List CtrlEvent}
    {labels : List MemLabel} (fresh : Fresh ctrl) (each : Each (timedStep which) OnTime ⟨ctrl, clock⟩ events)
    (ran : run (timedStep which) ⟨ctrl, clock⟩ events = .ok (final, labels)) :
    (final.ctrl.packetQueue ≠ [] → final.ctrl.retryResp = false → ∃ front due,
      final.ctrl.packetQueue.head? = some front ∧ final.ctrl.dequeueEvent = some due ∧ front.tick ≤ due) ∧
    ∀ now during taken, OnTime final (.timing (.dequeue now during taken)) →
      ∀ front, final.ctrl.packetQueue.head? = some front → front.tick ≤ now := by
  have awake : Awake final.clock final.ctrl := by
    refine run_keeps OnTime (fun timed => Awake timed.clock timed.ctrl) ?_ (fresh.awake clock) each ran
    intro before event after made kept onTime taken
    exact awake_step kept onTime taken
  have front_due : ∀ due front, final.ctrl.dequeueEvent = some due → final.ctrl.packetQueue.head? = some front →
      front.tick ≤ due := by
    intro due front event head
    obtain ⟨_, same, bound⟩ := awake.due due event
    rw [ticks, head?_map, head] at same
    cases same
    exact bound
  constructor
  · intro waiting idle
    obtain ⟨due, event⟩ := Option.isSome_iff_exists.mp (awake.live idle waiting)
    obtain ⟨front, _, queue⟩ := exists_cons_of_ne_nil waiting
    have head : final.ctrl.packetQueue.head? = some front := by rw [queue]; rfl
    exact ⟨front, due, head, event, front_due due front event head⟩
  · intro now during taken onTime front head
    exact front_due now front onTime.2 head

theorem delayed_read_timely : ∃ final labels,
    run (timedStep .simpleMemory) ⟨idleMemory, 0⟩ [.timing (.recvTimingReq 3 0 (firstRead 0))] = .ok (final, labels) ∧
      ∃ front due, final.ctrl.packetQueue.head? = some front ∧ final.ctrl.dequeueEvent = some due ∧ front.tick ≤ due := by
  have ends : ∃ final labels, run (timedStep .simpleMemory) ⟨idleMemory, 0⟩ [.timing (.recvTimingReq 3 0 (firstRead 0))] =
      .ok (final, labels) ∧ final.ctrl.packetQueue ≠ [] ∧ final.ctrl.retryResp = false := ⟨_, _, rfl, nofun, rfl⟩
  obtain ⟨final, labels, ran, waiting, idle⟩ := ends
  have each : Each (timedStep .simpleMemory) OnTime ⟨idleMemory, 0⟩ [.timing (.recvTimingReq 3 0 (firstRead 0))] :=
    ⟨⟨Nat.zero_le _, trivial⟩, trivial⟩
  have timely := responses_timely ⟨rfl, rfl, rfl⟩ each ran
  exact ⟨final, labels, ran, timely.1 waiting idle⟩

end ImcGem5.Mem.Proofs.Timely
