import ImcGem5.Mem.Bridge
import ImcGem5.Proofs.Layer

/-! Flow control of a bridge. Space for a response is reserved when a request is accepted,
and wherever that request or its response is, it counts against the reservation. -/

namespace ImcGem5.Mem.Proofs.Bridge
open Lib Mem.Bridge LayerProtocol List Bool

section Ports
variable {port : SendPort} {now : Tick}

/-- A port sends while it has packets, not before their ticks. -/
structure Outgoing (now : Tick) (port : SendPort) : Prop where
  event : port.sendEvent.isSome = true ↔ port.transmitList ≠ [] ∧ port.waiting = false ∧ port.sending = false
  due : ∀ due front, port.sendEvent = some due → port.transmitList.head? = some front → front.tick ≤ due
  ready : port.waiting = true ∨ port.sending = true → ∃ front rest, port.transmitList = front :: rest ∧ front.tick ≤ now
  apart : port.sending = true → port.waiting = false

theorem outgoing_initial (now : Tick) : Outgoing now {} where
  event := by simp
  due _ _ same := by cases same
  ready := by simp
  apart := by simp

theorem Outgoing.later {now later : Tick} (outgoing : Outgoing now port) (le : now ≤ later) : Outgoing later port where
  event := outgoing.event
  due := outgoing.due
  ready stalled := by
    obtain ⟨front, rest, list, passed⟩ := outgoing.ready stalled
    exact ⟨front, rest, list, Nat.le_trans passed le⟩
  apart := outgoing.apart

theorem Outgoing.unscheduled (outgoing : Outgoing now port) (stalled : port.waiting = true ∨ port.sending = true) :
    port.sendEvent = none := by
  rw [← Option.not_isSome_iff_eq_none, outgoing.event]
  intro ⟨_, free, idle⟩
  rw [free, idle] at stalled
  simp at stalled

theorem schedTiming_ok (outgoing : Outgoing now port) {deferred : DeferredPacket} (later : now ≤ deferred.tick) :
    ∃ sendEvent, port.schedTiming now true deferred = .ok { port with
        sendEvent
        transmitList := port.transmitList ++ [deferred] } ∧
      Outgoing now { port with
        sendEvent
        transmitList := port.transmitList ++ [deferred] } := by
  obtain ⟨event, due, ready, apart⟩ := outgoing
  unfold SendPort.schedTiming
  cases list : port.transmitList with
  | nil =>
    have idle : port.waiting = false ∧ port.sending = false := by
      rw [list] at ready
      refine ⟨?_, ?_⟩ <;> rw [← not_eq_true] <;> intro stalled
      · obtain ⟨_, _, impossible, _⟩ := ready (.inl stalled)
        cases impossible
      · obtain ⟨_, _, impossible, _⟩ := ready (.inr stalled)
        cases impossible
    have none : port.sendEvent = none := by
      rw [← Option.not_isSome_iff_eq_none, event]
      exact fun ⟨more, _⟩ => more list
    refine ⟨some deferred.tick, ?_, ?_⟩
    · simp [schedule, none, later]
    · refine ⟨by simp [idle], ?_, by simp [idle], apart⟩
      intro when front same first
      cases same
      cases first
      exact Nat.le_refl _
  | cons front rest =>
    rw [list] at event due ready
    refine ⟨port.sendEvent, rfl, ?_, ?_, ?_, apart⟩
    · rw [event]
      simp
    · intro when first same head
      exact due when first same head
    · intro stalled
      obtain ⟨first, _, same, passed⟩ := ready stalled
      cases same
      exact ⟨front, rest ++ [deferred], rfl, passed⟩

theorem trySendTiming_ok (port : SendPort) {front : DeferredPacket} {rest : List DeferredPacket} (text : String) (list : port.transmitList = front :: rest)
    (passed : front.tick ≤ now) (unscheduled : port.sendEvent = none) :
    port.trySendTiming now text = .ok { port with
        sending := true
        waiting := false } ∧
      Outgoing now { port with
        sending := true
        waiting := false } := by
  refine ⟨?_, ?_, ?_, ?_, fun _ => rfl⟩
  · unfold SendPort.trySendTiming
    rw [list]
    dsimp only
    rw [decide_eq_true passed]
    rfl
  · simp [unscheduled]
  · intro due first same
    rw [show port.sendEvent = some due from same] at unscheduled
    cases unscheduled
  · intro _
    exact ⟨front, rest, list, passed⟩

theorem sendNext_ok {period : Tick} (ticking : 0 < period) {front : DeferredPacket} {rest : List DeferredPacket}
    (outgoing : Outgoing now port) (sending : port.sending = true) (list : port.transmitList = front :: rest) :
    ∃ sendEvent, port.sendNext period now = .ok { port with
        transmitList := rest
        sendEvent
        sending := false } ∧
      Outgoing now { port with
        transmitList := rest
        sendEvent
        sending := false } := by
  have unscheduled := outgoing.unscheduled (.inr sending)
  have free := outgoing.apart sending
  have ahead := clockEdge_ahead ticking now 0
  unfold SendPort.sendNext
  rw [list]
  rw [unscheduled]
  cases rest with
  | nil =>
    refine ⟨none, rfl, ?_, ?_, ?_, nofun⟩
    · simp
    · intro due front same
      cases same
    · simp [free]
  | cons next =>
    refine ⟨some (max next.tick (clockEdge period now 0)), ?_, ?_, ?_, ?_, nofun⟩
    · have soon : schedule now none (max next.tick (clockEdge period now 0)) = .ok (some (max next.tick (clockEdge period now 0))) := by
        have : now ≤ max next.tick (clockEdge period now 0) := Nat.le_trans ahead (Nat.le_max_right _ _)
        simp [schedule, this]
      dsimp only
      rw [soon]
      rfl
    · simp [free]
    · intro due first same head
      cases same
      cases head
      exact Nat.le_max_left _ _
    · simp [free]

theorem sendFailed_ok (outgoing : Outgoing now port) (sending : port.sending = true) : Outgoing now port.sendFailed where
  event := by simp [SendPort.sendFailed, outgoing.unscheduled (.inr sending)]
  due := outgoing.due
  ready _ := outgoing.ready (.inr sending)
  apart := nofun

end Ports

section Labels

def acceptedOf (labels : List BridgeLabel) : List DeferredPacket :=
  labels.filterMap fun
    | .accepted deferred => some deferred
    | _ => none

def sentReqOf (labels : List BridgeLabel) : List DeferredPacket :=
  labels.filterMap fun
    | .sentReq deferred _ => some deferred
    | _ => none

def arrivedOf (labels : List BridgeLabel) : List DeferredPacket :=
  labels.filterMap fun
    | .arrived deferred => some deferred
    | _ => none

def sentRespOf (labels : List BridgeLabel) : List DeferredPacket :=
  labels.filterMap fun
    | .sentResp deferred _ => some deferred
    | _ => none

def asks (id : Nat) : BridgeLabel → Bool
  | .accepted deferred => deferred.pkt.needsResponse && deferred.pkt.id == id
  | _ => false

def answers (id : Nat) : BridgeLabel → Bool
  | .sentResp deferred _ => deferred.pkt.id == id
  | _ => false

def reserves : BridgeLabel → Bool
  | .accepted deferred => deferred.pkt.needsResponse
  | _ => false

def releases : BridgeLabel → Bool
  | .sentResp _ _ => true
  | _ => false

def refuses : BridgeLabel → Bool
  | .refused _ => true
  | _ => false

def retries : BridgeLabel → Bool
  | .sentRetry => true
  | _ => false

def Timely : BridgeLabel → Prop
  | .sentReq deferred now | .sentResp deferred now => deferred.tick ≤ now
  | _ => True

end Labels

def needing (list : List DeferredPacket) : List Nat :=
  (list.filter fun deferred => deferred.pkt.needsResponse).map fun deferred => deferred.pkt.id

def unsent (port : SendPort) : List DeferredPacket := if port.sending then port.transmitList.tail else port.transmitList

def owed (state : State) : List Nat :=
  needing (unsent state.bridge.memSidePort) ++ state.inFlight ++ state.bridge.cpuSidePort.transmitList.map fun deferred => deferred.pkt.id

/-- The invariant of the bridge, against the labels so far. -/
structure Flow (params : BridgeParams) (state : State) (labels : List BridgeLabel) : Prop where
  reserved : labels.countP reserves = labels.countP releases + state.bridge.outstandingResponses
  respRoom : state.bridge.outstandingResponses ≤ params.respQueueLimit
  reqRoom : state.bridge.memSidePort.transmitList.length ≤ params.reqQueueLimit
  requests : acceptedOf labels = sentReqOf labels ++ state.bridge.memSidePort.transmitList
  responses : arrivedOf labels = sentRespOf labels ++ state.bridge.cpuSidePort.transmitList
  answered : ∀ id, labels.countP (asks id) = labels.countP (answers id) + (owed state).count id
  timely : ∀ label ∈ labels, Timely label
  stalled : state.bridge.retryReq = true → state.bridge.memSidePort.transmitList ≠ [] ∨ 0 < state.bridge.outstandingResponses
  retried : labels.countP refuses = labels.countP retries + if state.bridge.retryReq then 1 else 0
  balance : state.bridge.outstandingResponses = (owed state).length
  memSide : Outgoing state.now state.bridge.memSidePort
  cpuSide : Outgoing state.now state.bridge.cpuSidePort

/-- What the peers may do. A requestor that was refused waits for its retry, a response is for
a request that has been offered, and a retry comes from a peer that has refused. -/
def Allowed (state : State) : Event → Prop
  | .recvTimingReq pkt => state.bridge.retryReq = false ∧ pkt.cacheResponding = false
  | .recvTimingResp pkt => pkt.id ∈ state.inFlight
  | .sendReq => state.bridge.memSidePort.sendEvent = some state.now
  | .sendResp => state.bridge.cpuSidePort.sendEvent = some state.now
  | .recvReqRetry => state.bridge.memSidePort.waiting = true
  | .recvRespRetry => state.bridge.cpuSidePort.waiting = true
  | .reqReturned success => state.bridge.memSidePort.sending = true ∧
    (success = false → ∀ id ∈ state.bridge.offered, id ∈ state.inFlight)
  | .respReturned _ => state.bridge.cpuSidePort.sending = true
  | .passed now => state.now ≤ now

section Steps
variable {params : BridgeParams} {state after : State} {labels new : List BridgeLabel} {front : DeferredPacket} {rest : List DeferredPacket}

theorem unsent_push (outgoing : Outgoing state.now state.bridge.memSidePort) (sendEvent : Option Tick) (deferred : DeferredPacket) :
    unsent { state.bridge.memSidePort with
      sendEvent
      transmitList := state.bridge.memSidePort.transmitList ++ [deferred] } = unsent state.bridge.memSidePort ++ [deferred] := by
  unfold unsent
  cases sending : state.bridge.memSidePort.sending with
  | false => rfl
  | true =>
    obtain ⟨_, _, list, _⟩ := outgoing.ready (.inr sending)
    rw [list]
    rfl

theorem needing_append (first second : List DeferredPacket) : needing (first ++ second) = needing first ++ needing second := by
  rw [needing, filter_append, map_append]
  rfl

section

variable (flow : Flow params state labels)
include flow

theorem Flow.silent (outstanding : after.bridge.outstandingResponses = state.bridge.outstandingResponses)
    (retryReq : after.bridge.retryReq = state.bridge.retryReq)
    (requests : after.bridge.memSidePort.transmitList = state.bridge.memSidePort.transmitList)
    (responses : after.bridge.cpuSidePort.transmitList = state.bridge.cpuSidePort.transmitList)
    (perm : (owed state).Perm (owed after)) (memSide : Outgoing after.now after.bridge.memSidePort)
    (cpuSide : Outgoing after.now after.bridge.cpuSidePort) : Flow params after (labels ++ []) := by
  rw [append_nil]
  refine ⟨?_, ?_, ?_, ?_, ?_, ?_, flow.timely, ?_, ?_, ?_, memSide, cpuSide⟩
  · rw [outstanding]
    exact flow.reserved
  · rw [outstanding]
    exact flow.respRoom
  · rw [requests]
    exact flow.reqRoom
  · rw [requests]
    exact flow.requests
  · rw [responses]
    exact flow.responses
  · intro id
    rw [← perm.count_eq]
    exact flow.answered id
  · rw [retryReq, requests, outstanding]
    exact flow.stalled
  · rw [retryReq]
    exact flow.retried
  · rw [outstanding, flow.balance]
    exact perm.length_eq

theorem Flow.refuse (pkt : Packet) (free : state.bridge.retryReq = false)
    (full : state.bridge.memSidePort.transmitList ≠ [] ∨ 0 < state.bridge.outstandingResponses) :
    Flow params { state with bridge.retryReq := true } (labels ++ [.refused pkt]) := by
  obtain ⟨reserved, respRoom, reqRoom, requests, responses, answered, timely, _, retried, balance, memSide, cpuSide⟩ := flow
  refine ⟨?_, respRoom, reqRoom, ?_, ?_, ?_, ?_, fun _ => full, ?_, balance, memSide, cpuSide⟩
  · simpa [reserves, releases] using reserved
  · simpa [acceptedOf, sentReqOf] using requests
  · simpa [arrivedOf, sentRespOf] using responses
  · intro id
    show _ = _ + (owed state).count id
    simpa [asks, answers] using answered id
  · intro label member
    obtain old | new := mem_concat.mp member
    · exact timely label old
    · rw [new]
      trivial
  · rw [free] at retried
    simpa [refuses, retries] using retried

theorem Flow.accept (deferred : DeferredPacket) (sendEvent : Option Tick)
    (free : state.bridge.retryReq = false) (room : state.bridge.memSidePort.transmitList.length < params.reqQueueLimit)
    (space : deferred.pkt.needsResponse = true → state.bridge.outstandingResponses < params.respQueueLimit)
    (memSide : Outgoing state.now { state.bridge.memSidePort with
      sendEvent
      transmitList := state.bridge.memSidePort.transmitList ++ [deferred] }) :
    Flow params { state with
      bridge.outstandingResponses := state.bridge.outstandingResponses + if deferred.pkt.needsResponse then 1 else 0
      bridge.memSidePort.sendEvent := sendEvent
      bridge.memSidePort.transmitList := state.bridge.memSidePort.transmitList ++ [deferred] } (labels ++ [.accepted deferred]) := by
  obtain ⟨_, respRoom, _, requests, responses, answered, timely, _, retried, balance, outgoing, cpuSide⟩ := flow
  have owes : (owed { state with
      bridge.outstandingResponses := state.bridge.outstandingResponses + if deferred.pkt.needsResponse then 1 else 0
      bridge.memSidePort.sendEvent := sendEvent
      bridge.memSidePort.transmitList := state.bridge.memSidePort.transmitList ++ [deferred] }).Perm (needing [deferred] ++ owed state) := by
    show (needing (unsent { state.bridge.memSidePort with
      sendEvent
      transmitList := state.bridge.memSidePort.transmitList ++ [deferred] }) ++ _ ++ _).Perm _
    rw [unsent_push outgoing, needing_append, owed, ← append_assoc, ← append_assoc]
    exact (perm_append_comm.append_right _).append_right _
  refine ⟨?_, ?_, ?_, ?_, ?_, ?_, ?_, ?_, ?_, ?_, memSide, cpuSide⟩
  · rw [countP_append, countP_append, countP_singleton, countP_singleton]
    by_cases needed : deferred.pkt.needsResponse = true <;> simp [reserves, releases, needed] <;> omega
  · split
    next needed => exact space needed
    next => exact respRoom
  · rw [length_append, length_singleton]
    exact room
  · simp [acceptedOf, sentReqOf] at requests ⊢
    rw [requests, append_assoc]
  · simpa [arrivedOf, sentRespOf] using responses
  · intro id
    have one : (needing [deferred]).count id = if asks id (.accepted deferred) = true then 1 else 0 := by
      cases needed : deferred.pkt.needsResponse <;> simp [asks, needing, needed, count_singleton]
    rw [owes.count_eq, count_append, countP_append, countP_append, answered id, one, countP_singleton, countP_singleton]
    simp only [answers, false_eq_true, if_false]
    omega
  · intro label member
    obtain old | new := mem_concat.mp member
    · exact timely label old
    · rw [new]
      trivial
  · rw [free]
    nofun
  · simpa [refuses, retries] using retried
  · rw [owes.length_eq, length_append, ← balance]
    cases needed : deferred.pkt.needsResponse <;> simp [needing, needed, Nat.add_comm]

end

theorem recvTimingReq_flow (ticking : 0 < params.period) (reqLimit : 0 < params.reqQueueLimit) (respLimit : 0 < params.respQueueLimit)
    (flow : Flow params state labels) {pkt : Packet} (free : state.bridge.retryReq = false) (noCache : pkt.cacheResponding = false) :
    ∃ after new, step params state (.recvTimingReq pkt) = .ok (after, new) ∧ Flow params after (labels ++ new) := by
  dsimp only [step, recvTimingReq]
  rw [noCache, panicIf_false, ok_bind, if_neg (not_eq_true _ ▸ free)]
  split
  next full =>
    refine ⟨_, _, rfl, flow.refuse pkt free (.inl ?_)⟩
    intro empty
    rw [reqQueueFull, empty, beq_iff_eq] at full
    exact Nat.ne_of_lt reqLimit full
  next notFull =>
    have room : state.bridge.memSidePort.transmitList.length < params.reqQueueLimit := by
      rw [reqQueueFull, beq_iff_eq] at notFull
      exact Nat.lt_of_le_of_ne flow.reqRoom notFull
    have later : state.now ≤ (receive params state.now pkt).tick :=
      Nat.le_trans (clockEdge_ahead ticking state.now params.delay) (Nat.le_add_right _ _)
    obtain ⟨sendEvent, sched, memSide⟩ := schedTiming_ok flow.memSide later
    have sched : ∀ outstandingResponses, schedTimingReq params state.now { state.bridge with outstandingResponses }
        (receive params state.now pkt) = .ok { state.bridge with
          outstandingResponses
          memSidePort.sendEvent := sendEvent
          memSidePort.transmitList := state.bridge.memSidePort.transmitList ++ [receive params state.now pkt] } := by
      intro outstandingResponses
      have free : reqQueueFull params { state.bridge with outstandingResponses } = false := not_eq_true _ ▸ notFull
      unfold schedTimingReq
      rw [free]
      exact (bind_of_ok sched _).trans rfl
    have accepting : (!state.bridge.retryReq) = true := by
      rw [free]
      rfl
    have sames : (receive params state.now pkt).pkt.needsResponse = pkt.needsResponse := rfl
    cases needed : pkt.needsResponse with
    | false =>
      have accepted := flow.accept (receive params state.now pkt) sendEvent free room
        (fun needs => absurd (needed.symm.trans needs) Bool.false_ne_true) memSide
      rw [sames, needed] at accepted
      simp only [false_eq_true, if_false, ok_bind, accepting, if_true]
      rw [sched state.bridge.outstandingResponses]
      exact ⟨_, _, rfl, accepted⟩
    | true =>
      simp only [if_true]
      split
      next full =>
        rw [respQueueFull, beq_iff_eq] at full
        exact ⟨_, _, rfl, flow.refuse pkt free (.inr (full ▸ respLimit))⟩
      next space =>
        rw [respQueueFull, beq_iff_eq] at space
        have accepted := flow.accept (receive params state.now pkt) sendEvent free room
          (fun _ => Nat.lt_of_le_of_ne flow.respRoom space) memSide
        rw [sames, needed, if_pos rfl] at accepted
        rw [bne_iff_ne.mpr space]
        simp only [require_true, ok_bind, pure_bind, accepting, if_true]
        rw [sched (state.bridge.outstandingResponses + 1)]
        exact ⟨_, _, rfl, accepted⟩

theorem recvTimingResp_flow (ticking : 0 < params.period) (flow : Flow params state labels) {pkt : Packet} (owes : pkt.id ∈ state.inFlight) :
    ∃ after new, step params state (.recvTimingResp pkt) = .ok (after, new) ∧ Flow params after (labels ++ new) := by
  have later : state.now ≤ (receive params state.now pkt).tick :=
    Nat.le_trans (clockEdge_ahead ticking state.now params.delay) (Nat.le_add_right _ _)
  obtain ⟨sendEvent, sched, cpuSide⟩ := schedTiming_ok flow.cpuSide later
  have runs : step params state (.recvTimingResp pkt) = .ok ({ state with
      bridge.cpuSidePort.sendEvent := sendEvent
      bridge.cpuSidePort.transmitList := state.bridge.cpuSidePort.transmitList ++ [receive params state.now pkt]
      inFlight := state.inFlight.erase pkt.id }, [.arrived (receive params state.now pkt)]) := by
    dsimp only [step, recvTimingResp, schedTimingResp]
    rw [sched]
    rfl
  refine ⟨_, _, runs, ?_⟩
  obtain ⟨reserved, respRoom, reqRoom, requests, responses, answered, timely, stalled, retried, balance, memSide, _⟩ := flow
  have same : (owed state).Perm (owed { state with
      bridge.cpuSidePort.sendEvent := sendEvent
      bridge.cpuSidePort.transmitList := state.bridge.cpuSidePort.transmitList ++ [receive params state.now pkt]
      inFlight := state.inFlight.erase pkt.id }) := by
    unfold owed
    rw [append_assoc, append_assoc]
    apply List.Perm.append_left
    rw [map_append, ← append_assoc]
    exact ((perm_cons_erase owes).append_right _).trans (perm_append_singleton _ _).symm
  refine ⟨?_, respRoom, reqRoom, ?_, ?_, ?_, ?_, stalled, ?_, ?_, memSide, cpuSide⟩
  · simpa [reserves, releases] using reserved
  · simpa [acceptedOf, sentReqOf] using requests
  · simp [arrivedOf, sentRespOf] at responses ⊢
    rw [responses, append_assoc]
  · intro id
    rw [← same.count_eq, countP_append, countP_append, answered id]
    rfl
  · intro label member
    obtain old | new := mem_concat.mp member
    · exact timely label old
    · rw [new]
      trivial
  · simpa [refuses, retries] using retried
  · rw [← same.length_eq]
    exact balance

theorem sendReq_flow (flow : Flow params state labels)
    (list : state.bridge.memSidePort.transmitList = front :: rest) (passed : front.tick ≤ state.now)
    (idle : state.bridge.memSidePort.sending = false) :
    trySendTimingReq state.now { state.bridge with memSidePort.sendEvent := none } = .ok { state.bridge with
        memSidePort.sendEvent := none
        memSidePort.sending := true
        memSidePort.waiting := false } ∧
      Flow params { state with
        bridge.memSidePort.sendEvent := none
        bridge.memSidePort.sending := true
        bridge.memSidePort.waiting := false
        inFlight := state.bridge.offered ++ state.inFlight } (labels ++ []) := by
  obtain ⟨tries, memSide⟩ := trySendTiming_ok { state.bridge.memSidePort with sendEvent := none } "req.tick <= curTick()" list
    passed rfl
  refine ⟨?_, ?_⟩
  · unfold trySendTimingReq
    exact (bind_of_ok tries _).trans rfl
  · refine flow.silent rfl rfl rfl rfl ?_ memSide flow.cpuSide
    have offers : needing (unsent state.bridge.memSidePort) = state.bridge.offered ++ needing rest := by
      unfold unsent offered
      rw [idle, list]
      cases needed : front.pkt.needsResponse <;> simp [needing, needed]
    have left : unsent { state.bridge.memSidePort with
        sendEvent := none
        sending := true
        waiting := false } = rest := by
      unfold unsent
      rw [list]
      rfl
    unfold owed
    rw [left, offers]
    apply List.Perm.append_right
    rw [← append_assoc]
    exact perm_append_comm.append_right _

theorem sendResp_flow (flow : Flow params state labels)
    (list : state.bridge.cpuSidePort.transmitList = front :: rest) (passed : front.tick ≤ state.now) :
    trySendTimingResp state.now { state.bridge with cpuSidePort.sendEvent := none } = .ok { state.bridge with
        cpuSidePort.sendEvent := none
        cpuSidePort.sending := true
        cpuSidePort.waiting := false } ∧
      Flow params { state with
        bridge.cpuSidePort.sendEvent := none
        bridge.cpuSidePort.sending := true
        bridge.cpuSidePort.waiting := false } (labels ++ []) := by
  obtain ⟨tries, cpuSide⟩ := trySendTiming_ok { state.bridge.cpuSidePort with sendEvent := none } "resp.tick <= curTick()" list
    passed rfl
  refine ⟨?_, ?_⟩
  · unfold trySendTimingResp
    exact (bind_of_ok tries _).trans rfl
  · exact flow.silent rfl rfl rfl rfl (List.Perm.refl _) flow.memSide cpuSide

theorem Outgoing.fires {port : SendPort} {now : Tick} (outgoing : Outgoing now port) (scheduled : port.sendEvent = some now) :
    ∃ front rest, port.transmitList = front :: rest ∧ front.tick ≤ now ∧ port.sending = false := by
  have fires : port.sendEvent.isSome = true := by
    rw [scheduled]
    rfl
  obtain ⟨some, _, idle⟩ := outgoing.event.mp fires
  obtain ⟨front, rest, list⟩ := exists_cons_of_ne_nil some
  refine ⟨front, rest, list, outgoing.due now front scheduled ?_, idle⟩
  rw [list]
  rfl

theorem Outgoing.retried {port : SendPort} {now : Tick} (outgoing : Outgoing now port) (waiting : port.waiting = true) :
    { port with sendEvent := none } = port ∧ port.sending = false := by
  refine ⟨?_, ?_⟩
  · rw [← outgoing.unscheduled (.inl waiting)]
  · rw [← not_eq_true]
    intro sending
    rw [outgoing.apart sending] at waiting
    cases waiting

theorem retryStalledReq_eq (bridge : Mem.Bridge) :
    bridge.retryStalledReq = ({ bridge with retryReq := false }, if bridge.retryReq then [.sentRetry] else []) := by
  unfold retryStalledReq
  split
  · rfl
  next quiet =>
    rw [not_eq_true] at quiet
    rw [← quiet]

theorem timely_send {label : BridgeLabel} (timely : ∀ label ∈ labels, Timely label) (passed : Timely label) (retry : Bool) :
    ∀ other ∈ labels ++ (label :: if retry then [.sentRetry] else []), Timely other := by
  intro other member
  obtain old | new := mem_append.mp member
  · exact timely other old
  · obtain rfl | last := mem_cons.mp new
    · exact passed
    · split at last
      · rw [mem_singleton.mp last]
        trivial
      · cases last

theorem Flow.sent (flow : Flow params state labels) (sendEvent : Option Tick)
    (list : state.bridge.memSidePort.transmitList = front :: rest) (sending : state.bridge.memSidePort.sending = true)
    (passed : front.tick ≤ state.now)
    (memSide : Outgoing state.now { state.bridge.memSidePort with
      transmitList := rest
      sendEvent
      sending := false }) :
    Flow params { state with
      bridge.memSidePort.transmitList := rest
      bridge.memSidePort.sendEvent := sendEvent
      bridge.memSidePort.sending := false
      bridge.retryReq := false }
      (labels ++ (.sentReq front state.now :: if state.bridge.retryReq then [.sentRetry] else [])) := by
  obtain ⟨reserved, respRoom, reqRoom, requests, responses, answered, timely, _, retried, balance, _, cpuSide⟩ := flow
  have same : owed { state with
      bridge.memSidePort.transmitList := rest
      bridge.memSidePort.sendEvent := sendEvent
      bridge.memSidePort.sending := false
      bridge.retryReq := false } = owed state := by
    unfold owed unsent
    rw [sending, list]
    rfl
  rw [list, length_cons] at reqRoom
  rw [list] at requests
  refine ⟨?_, respRoom, by dsimp only; omega, ?_, ?_, ?_, timely_send timely (show Timely (.sentReq front state.now) from passed) _, nofun, ?_, ?_, memSide, cpuSide⟩
  · cases state.bridge.retryReq <;> simpa [reserves, releases, countP_cons] using reserved
  · cases state.bridge.retryReq <;> simpa [acceptedOf, sentReqOf] using requests
  · cases state.bridge.retryReq <;> simpa [arrivedOf, sentRespOf] using responses
  · intro id
    rw [same]
    cases state.bridge.retryReq <;> simpa [asks, answers, countP_cons] using answered id
  · cases waiting : state.bridge.retryReq <;> rw [waiting] at retried <;>
      simpa [refuses, retries, countP_cons] using retried
  · rw [same]
    exact balance

theorem reqReturned_flow (ticking : 0 < params.period) (flow : Flow params state labels) (success : Bool)
    (sending : state.bridge.memSidePort.sending = true)
    (unanswered : success = false → ∀ id ∈ state.bridge.offered, id ∈ state.inFlight) :
    ∃ after new, step params state (.reqReturned success) = .ok (after, new) ∧ Flow params after (labels ++ new) := by
  obtain ⟨front, rest, list, passed⟩ := flow.memSide.ready (.inr sending)
  dsimp only [step, sentTimingReq]
  cases success with
  | false =>
    refine ⟨_, _, rfl, ?_⟩
    refine flow.silent rfl rfl rfl rfl ?_ (sendFailed_ok flow.memSide sending) flow.cpuSide
    have owes := unanswered rfl
    unfold owed unsent
    apply List.Perm.append_right
    simp only [SendPort.sendFailed, false_eq_true, if_false]
    unfold offered at owes ⊢
    rw [sending, list] at *
    dsimp only at owes ⊢
    cases needed : front.pkt.needsResponse with
    | false => simp [needing, needed]
    | true =>
      rw [needed, if_pos rfl] at owes
      have first : needing (front :: rest) = front.pkt.id :: needing rest := by
        simp [needing, needed]
      rw [first]
      simp only [if_true, diff_cons, diff_nil, tail_cons]
      exact ((perm_cons_erase (owes _ mem_cons_self)).append_left _).trans perm_middle
  | true =>
    obtain ⟨sendEvent, sends, memSide⟩ := sendNext_ok ticking flow.memSide sending list
    have sent := flow.sent sendEvent list sending passed memSide
    rw [list]
    rw [if_pos rfl, sends]
    dsimp only [ok_bind]
    rw [retryStalledReq_eq]
    exact ⟨_, _, rfl, sent⟩

theorem Flow.responded (flow : Flow params state labels) (sendEvent : Option Tick)
    (retry : Bool) (list : state.bridge.cpuSidePort.transmitList = front :: rest) (passed : front.tick ≤ state.now)
    (waits : retry = true → state.bridge.retryReq = true)
    (held : retry = false → state.bridge.retryReq = true → state.bridge.memSidePort.transmitList ≠ [])
    (cpuSide : Outgoing state.now { state.bridge.cpuSidePort with
      transmitList := rest
      sendEvent
      sending := false }) :
    Flow params { state with
      bridge.cpuSidePort.transmitList := rest
      bridge.cpuSidePort.sendEvent := sendEvent
      bridge.cpuSidePort.sending := false
      bridge.outstandingResponses := state.bridge.outstandingResponses - 1
      bridge.retryReq := state.bridge.retryReq && !retry }
      (labels ++ (.sentResp front state.now :: if retry then [.sentRetry] else [])) := by
  obtain ⟨_, _, reqRoom, requests, responses, answered, timely, _, retried, balance, memSide, _⟩ := flow
  have owes : (owed state).Perm (front.pkt.id :: owed { state with
      bridge.cpuSidePort.transmitList := rest
      bridge.cpuSidePort.sendEvent := sendEvent
      bridge.cpuSidePort.sending := false
      bridge.outstandingResponses := state.bridge.outstandingResponses - 1
      bridge.retryReq := state.bridge.retryReq && !retry }) := by
    unfold owed
    rw [list, map_cons]
    exact perm_middle
  have length := owes.length_eq
  rw [← balance, length_cons] at length
  rw [list] at responses
  refine ⟨?_, by dsimp only; omega, reqRoom, ?_, ?_, ?_, timely_send timely (show Timely (.sentResp front state.now) from passed) _, ?_, ?_, ?_,
    memSide, cpuSide⟩
  · cases retry <;> simp [reserves, releases, countP_cons] <;> omega
  · cases retry <;> simpa [acceptedOf, sentReqOf] using requests
  · cases retry <;> simpa [arrivedOf, sentRespOf] using responses
  · intro id
    have counted := answered id
    rw [owes.count_eq, count_cons] at counted
    cases retry <;> simp [asks, answers, countP_cons] at counted ⊢ <;> omega
  · intro still
    obtain ⟨waiting, kept⟩ := and_eq_true_iff.mp still
    exact .inl (held (not_eq_true' _ ▸ kept) waiting)
  · cases retry with
    | false => simpa [refuses, retries] using retried
    | true =>
      rw [waits rfl] at retried
      simpa [refuses, retries] using retried
  · exact Nat.sub_eq_of_eq_add length

theorem respReturned_flow (ticking : 0 < params.period) (reqLimit : 0 < params.reqQueueLimit) (flow : Flow params state labels)
    (success : Bool) (sending : state.bridge.cpuSidePort.sending = true) :
    ∃ after new, step params state (.respReturned success) = .ok (after, new) ∧ Flow params after (labels ++ new) := by
  obtain ⟨_, _, list, passed⟩ := flow.cpuSide.ready (.inr sending)
  dsimp only [step, sentTimingResp]
  cases success with
  | false =>
    refine ⟨_, _, rfl, ?_⟩
    exact flow.silent rfl rfl rfl rfl (List.Perm.refl _) flow.memSide (sendFailed_ok flow.cpuSide sending)
  | true =>
    obtain ⟨sendEvent, sends, cpuSide⟩ := sendNext_ok ticking flow.cpuSide sending list
    have some : (state.bridge.outstandingResponses != 0) = true := by
      rw [bne_iff_ne, flow.balance, owed, list]
      simp
    rw [list]
    rw [if_pos rfl, some, sends]
    dsimp only [require_true, ok_bind]
    split
    next retry =>
      obtain ⟨_, waiting⟩ := and_eq_true_iff.mp retry
      have responded := flow.responded sendEvent true list passed (fun _ => waiting) nofun cpuSide
      rw [Bool.not_true, Bool.and_false] at responded
      exact ⟨_, _, rfl, responded⟩
    next quiet =>
      have responded := flow.responded sendEvent false list passed nofun (fun _ waiting empty => quiet ?_) cpuSide
      · rw [Bool.not_false, Bool.and_true] at responded
        exact ⟨_, _, rfl, responded⟩
      · rw [waiting, Bool.and_true, reqQueueFull]
        rw [empty, not_eq_true', beq_eq_false_iff_ne]
        exact Nat.ne_of_lt reqLimit

theorem step_flow (ticking : 0 < params.period) (reqLimit : 0 < params.reqQueueLimit) (respLimit : 0 < params.respQueueLimit)
    {event : Event} (flow : Flow params state labels) (allowed : Allowed state event) :
    ∃ after new, step params state event = .ok (after, new) ∧ Flow params after (labels ++ new) := by
  cases event with
  | recvTimingReq => exact recvTimingReq_flow ticking reqLimit respLimit flow allowed.1 allowed.2
  | recvTimingResp => exact recvTimingResp_flow ticking flow allowed
  | sendReq =>
    obtain ⟨front, rest, list, passed, idle⟩ := flow.memSide.fires allowed
    obtain ⟨sends, sent⟩ := sendReq_flow flow list passed idle
    exact ⟨_, _, (bind_of_ok sends _).trans rfl, sent⟩
  | sendResp =>
    obtain ⟨front, rest, list, passed, _⟩ := flow.cpuSide.fires allowed
    obtain ⟨sends, sent⟩ := sendResp_flow flow list passed
    exact ⟨_, _, (bind_of_ok sends _).trans rfl, sent⟩
  | recvReqRetry =>
    obtain ⟨front, rest, list, passed⟩ := flow.memSide.ready (.inl allowed)
    obtain ⟨same, idle⟩ := flow.memSide.retried allowed
    obtain ⟨sends, sent⟩ := sendReq_flow flow list passed idle
    rw [show { state.bridge with memSidePort.sendEvent := none } = state.bridge from
      congrArg (fun memSidePort => { state.bridge with memSidePort }) same] at sends
    exact ⟨_, _, (bind_of_ok sends _).trans rfl, sent⟩
  | recvRespRetry =>
    obtain ⟨front, rest, list, passed⟩ := flow.cpuSide.ready (.inl allowed)
    obtain ⟨same, _⟩ := flow.cpuSide.retried allowed
    obtain ⟨sends, sent⟩ := sendResp_flow flow list passed
    rw [show { state.bridge with cpuSidePort.sendEvent := none } = state.bridge from
      congrArg (fun cpuSidePort => { state.bridge with cpuSidePort }) same] at sends
    exact ⟨_, _, (bind_of_ok sends _).trans rfl, sent⟩
  | reqReturned success => exact reqReturned_flow ticking flow success allowed.1 allowed.2
  | respReturned success => exact respReturned_flow ticking reqLimit flow success allowed
  | passed =>
    exact ⟨_, _, rfl, flow.silent rfl rfl rfl rfl (List.Perm.refl _) (flow.memSide.later allowed) (flow.cpuSide.later allowed)⟩

end Steps

theorem flow_initial (params : BridgeParams) : Flow params {} [] where
  reserved := rfl
  respRoom := Nat.zero_le _
  reqRoom := Nat.zero_le _
  requests := rfl
  responses := rfl
  answered _ := rfl
  timely _ member := absurd member not_mem_nil
  stalled := by simp
  retried := rfl
  balance := rfl
  memSide := outgoing_initial 0
  cpuSide := outgoing_initial 0

/-- However the peers of a bridge interleave their calls with its own, no assertion fails, the
space for responses is what accepted requests still need, packets leave in order and in time,
and who waits for a retry can count on one. -/
theorem flow_controlled {params : BridgeParams} (ticking : 0 < params.period) (reqLimit : 0 < params.reqQueueLimit)
    (respLimit : 0 < params.respQueueLimit) {events : List Event} (each : Each (step params) Allowed {} events) :
    ∃ final labels, run (step params) {} events = .ok (final, labels) ∧ Flow params final labels :=
  run_advances _ (Flow params) (fun _ _ _ flow allowed => step_flow ticking reqLimit respLimit flow allowed) (flow_initial params) each

def oneByOne : BridgeParams where
  period := 10
  delay := 1
  reqQueueLimit := 1
  respQueueLimit := 1

def readFor (id : Nat) : Packet := Packet.ofRequest { paddr := 0, size := 8, id, flags := 0 } .readReq []

def responseFor (id : Nat) : Packet := { readFor id with cmd := .readResp }

def reentered : List Event :=
  [.recvTimingReq (readFor 0), .recvTimingReq (readFor 1), .passed 10, .sendReq, .reqReturned true, .recvTimingReq (readFor 1),
    .recvTimingResp (responseFor 0), .passed 20, .sendResp, .respReturned true, .recvTimingReq (readFor 1)]

theorem reentered_flows : ∃ final labels, run (step oneByOne) {} reentered = .ok (final, labels) ∧
    final.bridge.outstandingResponses = 1 ∧ labels.countP refuses = 2 ∧ labels.countP retries = 2 := by
  have each : Each (step oneByOne) Allowed {} reentered := by
    refine ⟨⟨rfl, rfl⟩, ⟨rfl, rfl⟩, ?_, rfl, ⟨rfl, nofun⟩, ⟨rfl, rfl⟩, ?_, ?_, rfl, rfl, ⟨rfl, rfl⟩, trivial⟩
    · exact Nat.zero_le _
    · exact mem_cons_self
    · exact Nat.le_add_right 10 10
  obtain ⟨final, labels, ran, flow⟩ := flow_controlled (by decide) (by decide) (by decide) each
  have seen : final.bridge.outstandingResponses = 1 ∧ final.bridge.retryReq = false ∧ labels.countP refuses = 2 := by
    cases ran
    exact ⟨rfl, rfl, rfl⟩
  obtain ⟨outstanding, free, refused⟩ := seen
  have retried := flow.retried
  rw [free, refused] at retried
  exact ⟨final, labels, ran, outstanding, refused, retried.symm⟩

end ImcGem5.Mem.Proofs.Bridge
