import ImcGem5.Mem.PacketQueue

/-! The deferred packet queue never hangs, loses or repeats a packet. Between events a
packet at the front is waited for by exactly one of the peer and the send event; while a
send is being accepted that may be nobody, and the end of the send puts it right. -/

namespace ImcGem5.Mem.Proofs.PacketQueue
open Lib List

/-- What stops a run that is not of the queue's making: a packet that must not be queued,
and the end of time, where the next tick wraps around. -/
def Excused (failure : Abort) : Prop :=
  failure = .assertion "!pkt->isExpressSnoop()" ∨ failure = .assertion "when >= getCurTick()"

theorem yields_require {condition : Bool} {text : String} (excused : condition = true ∨ Excused (.assertion text)) :
    Yields Excused (require condition text) fun _ => condition = true := by
  cases condition with
  | true => rfl
  | false => exact excused.resolve_left nofun

/-- Packets whose order is kept: those with one address under forceOrder, otherwise those
of one tick. -/
def kin (forceOrder : Bool) (kind : Tick × Addr × Bool) (other : DeferredPacket) : Bool :=
  if forceOrder then other.pkt.addr == kind.2.1 && other.pkt.isSecure == kind.2.2 else other.tick == kind.1

variable {forceOrder : Bool} {queue : PacketQueue} {now : Tick} {side : SendSide} {past : List SendLabel}

theorem stops_of_kin {kind : Tick × Addr × Bool} {new other : DeferredPacket} (newKin : kin forceOrder kind new = true)
    (otherKin : kin forceOrder kind other = true) : PacketQueue.stops forceOrder new other = true := by
  unfold kin at newKin otherKin
  unfold PacketQueue.stops
  cases forceOrder with
  | false =>
    simp only [Bool.false_eq_true, if_false, beq_iff_eq] at newKin otherKin
    simp [newKin, otherKin]
  | true =>
    simp only [if_true, Bool.and_eq_true, beq_iff_eq] at newKin otherKin
    simp [Packet.matchAddr, newKin, otherKin]

/-- Packets are sent once, those of a kind in order. -/
structure Holding (forceOrder : Bool) (queue : PacketQueue) (enqueued accepted : List DeferredPacket) : Prop where
  force : queue.forceOrder = forceOrder
  unchecked : queue.disableSanityCheck = true
  later : ∀ deferred ∈ queue.transmitList, deferred.tick < maxTick
  once : (accepted ++ queue.transmitList).Perm enqueued
  order : ∀ kind, accepted.filter (kin forceOrder kind) ++ queue.transmitList.filter (kin forceOrder kind) =
    enqueued.filter (kin forceOrder kind)
  sorted : forceOrder = false → queue.transmitList.Pairwise (·.tick ≤ ·.tick)

section Holding
variable {forceOrder : Bool} {queue : PacketQueue} {enqueued accepted : List DeferredPacket}

theorem Holding.enqueue {before after : List DeferredPacket} {deferred : DeferredPacket}
    (holding : Holding forceOrder queue enqueued accepted) (whole : queue.transmitList = before ++ after)
    (early : deferred.tick < maxTick) (passed : ∀ other ∈ after, PacketQueue.stops forceOrder deferred other = false)
    (behind : before = [] ∨ ∃ first last, before = first ++ [last] ∧ PacketQueue.stops forceOrder deferred last = true) :
    Holding forceOrder { queue with transmitList := before ++ deferred :: after } (enqueued ++ [deferred]) accepted := by
  have later := holding.later
  have once := holding.once
  have order := holding.order
  have sorted := holding.sorted
  rw [whole] at later once sorted
  refine ⟨holding.force, holding.unchecked, ?_, ?_, ?_, ?_⟩
  · intro other member
    obtain old | rfl | old := (mem_append.mp member).imp_right mem_cons.mp
    · exact later other (mem_append_left _ old)
    · exact early
    · exact later other (mem_append_right _ old)
  · calc accepted ++ (before ++ deferred :: after)
        = (accepted ++ before) ++ deferred :: after := (append_assoc _ _ _).symm
      _ |>.Perm (deferred :: ((accepted ++ before) ++ after)) := perm_middle
      _ |>.Perm (deferred :: enqueued) := by
        rw [append_assoc]
        exact once.cons deferred
      _ |>.Perm (enqueued ++ [deferred]) := (perm_append_singleton deferred enqueued).symm
  · intro other
    have kept := order other
    rw [whole, filter_append] at kept
    rw [filter_append, filter_append, filter_cons, ← kept]
    by_cases related : kin forceOrder other deferred = true
    · have none_ : after.filter (kin forceOrder other) = [] := by
        apply filter_eq_nil_iff.mpr
        intro entry member relatedToo
        have stopped := stops_of_kin related relatedToo
        rw [passed entry member] at stopped
        cases stopped
      simp [related, none_]
    · simp [related]
  · intro unforced
    obtain ⟨sortedBefore, sortedAfter, across⟩ := pairwise_append.mp (sorted unforced)
    have isEarlier : ∀ entry, PacketQueue.stops forceOrder deferred entry = true ↔ entry.tick ≤ deferred.tick := by
      intro entry
      simp [PacketQueue.stops, unforced]
    have before_le : ∀ entry ∈ before, entry.tick ≤ deferred.tick := by
      intro entry member
      obtain rfl | ⟨first, last, rfl, stopped⟩ := behind
      · cases member
      · have lastEarlier := (isEarlier last).mp stopped
        obtain inside | isLast := mem_concat.mp member
        · have less := (pairwise_append.mp sortedBefore).2.2 entry inside last mem_cons_self
          exact Nat.le_trans less lastEarlier
        · rw [isLast]
          exact lastEarlier
    have after_gt : ∀ entry ∈ after, deferred.tick ≤ entry.tick := by
      intro entry member
      have notEarlier : ¬entry.tick ≤ deferred.tick := by
        rw [← isEarlier, passed entry member]
        exact nofun
      exact Nat.le_of_not_le notEarlier
    refine pairwise_append.mpr ⟨sortedBefore, pairwise_cons.mpr ⟨after_gt, sortedAfter⟩, ?_⟩
    intro entry member other member'
    obtain rfl | member' := mem_cons.mp member'
    · exact before_le entry member
    · exact across entry member other member'

theorem Holding.accept {deferred : DeferredPacket} {rest : List DeferredPacket} (holding : Holding forceOrder queue enqueued accepted)
    (whole : queue.transmitList = deferred :: rest) :
    Holding forceOrder { queue with transmitList := rest } enqueued (accepted ++ [deferred]) := by
  have later := holding.later
  have once := holding.once
  have sorted := holding.sorted
  rw [whole] at later once sorted
  refine ⟨holding.force, holding.unchecked, fun other member => later other (mem_cons_of_mem _ member), ?_, ?_, ?_⟩
  · rw [append_assoc]
    exact once
  · intro other
    rw [← holding.order other, whole, filter_append, append_assoc, ← filter_append, singleton_append]
  · intro unforced
    exact (pairwise_cons.mp (sorted unforced)).2

theorem placeBack_ok (forceOrder : Bool) (deferred : DeferredPacket) (list : List DeferredPacket) :
    match PacketQueue.placeBack forceOrder deferred list with
    | none => ∀ other ∈ list, PacketQueue.stops forceOrder deferred other = false
    | some placed => ∃ after last before, list = after ++ last :: before ∧ placed = after ++ deferred :: last :: before ∧
        PacketQueue.stops forceOrder deferred last = true ∧ ∀ other ∈ after, PacketQueue.stops forceOrder deferred other = false := by
  induction list with
  | nil =>
    intro other member
    cases member
  | cons last earlier ih =>
    unfold PacketQueue.placeBack
    by_cases stopped : PacketQueue.stops forceOrder deferred last = true
    · rw [if_pos stopped]
      exact ⟨[], last, earlier, rfl, rfl, stopped, fun _ member => absurd member not_mem_nil⟩
    · rw [if_neg stopped]
      rw [Bool.not_eq_true] at stopped
      cases found : PacketQueue.placeBack forceOrder deferred earlier with
      | none =>
        rw [found] at ih
        intro other member
        obtain rfl | member := mem_cons.mp member
        · exact stopped
        · exact ih other member
      | some =>
        rw [found] at ih
        obtain ⟨after, stop, before, rfl, rfl, stops, passed⟩ := ih
        refine ⟨last :: after, stop, before, rfl, rfl, stops, ?_⟩
        intro other member
        obtain rfl | member := mem_cons.mp member
        · exact stopped
        · exact passed other member

end Holding

/-- The send event, if there is one, comes no earlier than the front may be sent. -/
structure Awake (queue : PacketQueue) (now : Tick) : Prop where
  awake : queue.waitingOnRetry = false
  planned : ∀ due, queue.sendEvent = some due → ∃ front rest, queue.transmitList = front :: rest ∧ front.tick ≤ due ∧ now ≤ due

/-- A refused queue waits for the retry. -/
structure Asleep (queue : PacketQueue) (now : Tick) : Prop where
  asleep : queue.waitingOnRetry = true
  unplanned : queue.sendEvent = none
  front : ∃ front rest, queue.transmitList = front :: rest ∧ front.tick ≤ now

theorem schedSendEvent_front {queue : PacketQueue} {now : Tick} {front : DeferredPacket}
    (awake : queue.waitingOnRetry = false) (early : front.tick < maxTick)
    (planned : ∀ due, queue.sendEvent = some due → front.tick ≤ due ∧ now ≤ due) :
    Yields Excused (queue.schedSendEvent now front.tick) fun result =>
      ∃ due, result = ({ queue with sendEvent := some due }, []) ∧ front.tick ≤ due ∧ now ≤ due := by
  unfold PacketQueue.schedSendEvent
  rw [if_neg (by rw [awake]; exact nofun), if_pos (Nat.ne_of_lt early)]
  have late : front.tick ≤ max front.tick ((now + 1) % 2 ^ 64) := Nat.le_max_left _ _
  generalize max front.tick ((now + 1) % 2 ^ 64) = due at late ⊢
  cases event : queue.sendEvent with
  | none =>
    have scheduled : Yields Excused (schedule now none due) fun slot => slot = some due ∧ now ≤ due := by
      apply (yields_require (.inl rfl)).bind
      intro _ _
      apply (yields_require (.inr (.inr rfl))).bind
      intro _ inTime
      exact ⟨rfl, of_decide_eq_true inTime⟩
    apply scheduled.bind
    intro slot ⟨same, inTime⟩
    exact ⟨due, by rw [same], late, inTime⟩
  | some old =>
    obtain ⟨frontEarlier, inTime⟩ := planned old event
    dsimp only
    by_cases sooner : due < old
    · rw [if_pos sooner]
      have rescheduled : Yields Excused (reschedule now due) fun slot => slot = some due ∧ now ≤ due := by
        apply (yields_require (.inr (.inr rfl))).bind
        intro _ inTime
        exact ⟨rfl, of_decide_eq_true inTime⟩
      apply rescheduled.bind
      intro slot ⟨same, inTime⟩
      exact ⟨due, by rw [same], late, inTime⟩
    · rw [if_neg sooner]
      refine ⟨old, ?_, frontEarlier, inTime⟩
      rw [← event]

theorem schedSendEvent_idle (awake : queue.waitingOnRetry = false) : Yields Excused (queue.schedSendEvent now maxTick) fun result =>
      ∃ draining, result.1 = { queue with draining } ∧ (result.2 = [] ∨ result.2 = [.drainDone]) := by
  unfold PacketQueue.schedSendEvent
  rw [if_neg (by rw [awake]; exact nofun), if_neg (fun different => different rfl)]
  split
  · exact ⟨false, rfl, .inr rfl⟩
  · exact ⟨queue.draining, rfl, .inl rfl⟩

def enqueuedOf (labels : List SendLabel) : List DeferredPacket :=
  labels.filterMap fun
    | .enqueued deferred => some deferred
    | _ => none

def acceptedOf (labels : List SendLabel) : List DeferredPacket :=
  labels.filterMap fun
    | .accepted deferred => some deferred
    | _ => none

def InTime (labels : List SendLabel) : Prop := ∀ deferred now, .offered deferred now ∈ labels → deferred.tick ≤ now

structure Made (labels : List SendLabel) (enqueued accepted : List DeferredPacket) : Prop where
  enqueued : enqueuedOf labels = enqueued
  accepted : acceptedOf labels = accepted
  inTime : InTime labels

theorem Made.append {early late : List SendLabel} {enqueued enqueued' accepted accepted' : List DeferredPacket}
    (first : Made early enqueued accepted) (second : Made late enqueued' accepted') :
    Made (early ++ late) (enqueued ++ enqueued') (accepted ++ accepted') := by
  refine ⟨?_, ?_, ?_⟩
  · rw [enqueuedOf, filterMap_append, ← first.enqueued, ← second.enqueued]
    rfl
  · rw [acceptedOf, filterMap_append, ← first.accepted, ← second.accepted]
    rfl
  · intro deferred now member
    obtain early | late := mem_append.mp member
    · exact first.inTime deferred now early
    · exact second.inTime deferred now late

theorem made_nil : Made [] [] [] := ⟨rfl, rfl, fun _ _ member => absurd member not_mem_nil⟩

theorem made_enqueued (deferred : DeferredPacket) : Made [.enqueued deferred] [deferred] [] := by
  refine ⟨rfl, rfl, fun _ _ member => ?_⟩
  cases mem_singleton.mp member

theorem made_accepted (deferred : DeferredPacket) : Made [.accepted deferred] [] [deferred] := by
  refine ⟨rfl, rfl, fun _ _ member => ?_⟩
  cases mem_singleton.mp member

theorem made_drainDone : Made [.drainDone] [] [] := by
  refine ⟨rfl, rfl, fun _ _ member => ?_⟩
  cases mem_singleton.mp member

theorem made_offered {deferred : DeferredPacket} (ready : deferred.tick ≤ now) : Made [.offered deferred now] [] [] := by
  refine ⟨rfl, rfl, fun _ _ member => ?_⟩
  cases mem_singleton.mp member
  exact ready

theorem place_ok {enqueued accepted : List DeferredPacket}
    (holding : Holding forceOrder queue enqueued accepted) (deferred : DeferredPacket) (early : deferred.tick < maxTick) :
    match PacketQueue.placeBack queue.forceOrder deferred queue.transmitList.reverse with
    | some placed => (∃ front rest rest', queue.transmitList = front :: rest ∧ placed.reverse = front :: rest') ∧
        Holding forceOrder { queue with transmitList := placed.reverse } (enqueued ++ [deferred]) accepted
    | none => (∀ other ∈ queue.transmitList, deferred.tick < other.tick) ∧
        Holding forceOrder { queue with transmitList := deferred :: queue.transmitList } (enqueued ++ [deferred]) accepted := by
  have placed := placeBack_ok queue.forceOrder deferred queue.transmitList.reverse
  cases found : PacketQueue.placeBack queue.forceOrder deferred queue.transmitList.reverse with
  | none =>
    rw [found] at placed
    have passed : ∀ other ∈ queue.transmitList, PacketQueue.stops forceOrder deferred other = false := by
      intro other member
      rw [← holding.force]
      exact placed other (mem_reverse.mpr member)
    refine ⟨?_, @Holding.enqueue _ _ _ _ [] _ _ holding rfl early passed (.inl rfl)⟩
    intro other member
    have notEarlier : ¬other.tick ≤ deferred.tick := by
      have ahead := passed other member
      simp only [PacketQueue.stops, Bool.or_eq_false_iff, decide_eq_false_iff_not] at ahead
      exact ahead.2
    exact Nat.lt_of_not_le notEarlier
  | some =>
    rw [found] at placed
    obtain ⟨after, last, before, whole, rfl, stopped, passed⟩ := placed
    have forwards : queue.transmitList = (before.reverse ++ [last]) ++ after.reverse := by
      have turned := congrArg List.reverse whole
      rw [reverse_reverse] at turned
      rw [turned]
      simp
    have result : (after ++ deferred :: last :: before).reverse = (before.reverse ++ [last]) ++ deferred :: after.reverse := by
      simp
    refine ⟨?_, ?_⟩
    · rw [forwards, result]
      cases before.reverse with
      | nil => exact ⟨last, after.reverse, deferred :: after.reverse, rfl, rfl⟩
      | cons front => exact ⟨front, _, _, rfl, rfl⟩
    · rw [result]
      refine holding.enqueue forwards early ?_ (.inr ⟨before.reverse, last, rfl, holding.force ▸ stopped⟩)
      intro other member
      rw [← holding.force]
      exact passed other (mem_reverse.mp member)

section Enqueue
variable {forceOrder : Bool} {queue : PacketQueue} {enqueued accepted : List DeferredPacket} {now due : Tick} {pkt : Packet}

theorem schedSendTiming_checked {post : PacketQueue × List SendLabel → Prop} (unchecked : queue.disableSanityCheck = true)
    (timely : now ≤ due)
    (placed : Yields Excused (match PacketQueue.placeBack queue.forceOrder ⟨due, pkt⟩ queue.transmitList.reverse with
      | some placed => .ok ({ queue with transmitList := placed.reverse }, [.enqueued ⟨due, pkt⟩])
      | none => PacketQueue.schedSendEvent { queue with transmitList := ⟨due, pkt⟩ :: queue.transmitList } now due >>=
          fun result => .ok (result.1, .enqueued ⟨due, pkt⟩ :: result.2)) post) :
    Yields Excused (queue.schedSendTiming now pkt due) post := by
  unfold PacketQueue.schedSendTiming
  apply (yields_require (.inl (decide_eq_true timely))).bind
  intro _ _
  apply (yields_require (.inr (.inl rfl))).bind
  intro _ _
  have calm : panicIf (!queue.disableSanityCheck && queue.transmitList.length > 128) "Packet queue has grown beyond 128 packets" = .ok () := by
    rw [unchecked]
    rfl
  rw [calm, ok_bind]
  cases found : PacketQueue.placeBack queue.forceOrder ⟨due, pkt⟩ queue.transmitList.reverse with
  | some | none =>
    rw [found] at placed
    exact placed

theorem schedSendTiming_awake (awake : Awake queue now) (timely : SendSide.Timely now due)
    (holding : Holding forceOrder queue enqueued accepted) :
    Yields Excused (queue.schedSendTiming now pkt due) fun result =>
      Awake result.1 now ∧ (queue.transmitList = [] ∨ queue.sendEvent.isSome → result.1.sendEvent.isSome) ∧
        Holding forceOrder result.1 (enqueued ++ [⟨due, pkt⟩]) accepted ∧ Made result.2 [⟨due, pkt⟩] [] := by
  have placed := place_ok holding ⟨due, pkt⟩ timely.2
  apply schedSendTiming_checked holding.unchecked timely.1
  split
  · next list found =>
    rw [found] at placed
    obtain ⟨⟨front, rest, rest', whole, whole'⟩, holding'⟩ := placed
    refine ⟨⟨awake.awake, ?_⟩, ?_, holding', made_enqueued _⟩
    · intro planned event
      obtain ⟨first, _, isFirst, inTime⟩ := awake.planned planned event
      rw [whole] at isFirst
      cases isFirst
      exact ⟨front, rest', whole', inTime⟩
    · intro before
      obtain empty | scheduled := before
      · rw [empty] at whole
        cases whole
      · exact scheduled
  · next found =>
    rw [found] at placed
    obtain ⟨first, holding'⟩ := placed
    have sent := @schedSendEvent_front { queue with transmitList := ⟨due, pkt⟩ :: queue.transmitList } now ⟨due, pkt⟩
      awake.awake timely.2 (by
        intro planned event
        obtain ⟨front, rest, whole, frontEarlier, inTime⟩ := awake.planned planned event
        have less := first front (by rw [whole]; exact mem_cons_self)
        exact ⟨Nat.le_trans (Nat.le_of_lt less) frontEarlier, inTime⟩)
    apply sent.bind
    intro result ⟨planned, same, late, inTime⟩
    subst same
    refine ⟨⟨awake.awake, ?_⟩, fun _ => rfl, ⟨holding'.force, holding'.unchecked, holding'.later, holding'.once, holding'.order,
      holding'.sorted⟩, made_enqueued _⟩
    intro other event
    cases event
    exact ⟨⟨due, pkt⟩, queue.transmitList, rfl, late, inTime⟩

theorem schedSendTiming_asleep (asleep : Asleep queue now) (timely : SendSide.Timely now due)
    (holding : Holding forceOrder queue enqueued accepted) :
    Yields Excused (queue.schedSendTiming now pkt due) fun result =>
      Asleep result.1 now ∧ Holding forceOrder result.1 (enqueued ++ [⟨due, pkt⟩]) accepted ∧ Made result.2 [⟨due, pkt⟩] [] := by
  have placed := place_ok holding ⟨due, pkt⟩ timely.2
  obtain ⟨front, _, whole, ready⟩ := asleep.front
  apply schedSendTiming_checked holding.unchecked timely.1
  split
  · next list found =>
    rw [found] at placed
    obtain ⟨⟨_, _, rest'', whole', whole''⟩, holding'⟩ := placed
    rw [whole] at whole'
    cases whole'
    exact ⟨⟨asleep.asleep, asleep.unplanned, front, rest'', whole'', ready⟩, holding', made_enqueued _⟩
  · next found =>
    rw [found] at placed
    have less := placed.1 front (by rw [whole]; exact mem_cons_self)
    exact absurd (Nat.le_trans ready timely.1) (Nat.not_le_of_lt less)

theorem schedEach_ok {calls : List (Packet × Tick)} (awake : Awake queue now) (timely : ∀ call ∈ calls, SendSide.Timely now call.2)
    (holding : Holding forceOrder queue enqueued accepted) :
    Yields Excused (queue.schedEach now calls) fun result => Awake result.1 now ∧ ∃ more,
      Holding forceOrder result.1 (enqueued ++ more) accepted ∧ Made result.2 more [] := by
  induction calls generalizing queue enqueued with
  | nil =>
    refine ⟨awake, [], ?_, made_nil⟩
    rw [append_nil]
    exact holding
  | cons call _ ih =>
    unfold PacketQueue.schedEach
    apply (schedSendTiming_awake awake (timely call mem_cons_self) holding).bind
    intro ⟨middle, first⟩ ⟨awake', _, holding', made⟩
    apply (ih awake' (fun other member => timely other (mem_cons_of_mem _ member)) holding').bind
    intro ⟨last, rest⟩ ⟨awake'', more, holding'', made'⟩
    rw [append_assoc] at holding''
    exact ⟨awake'', _, holding'', made.append made'⟩

end Enqueue

def Steady (queue : PacketQueue) (now : Tick) : Prop :=
  Asleep queue now ∨ Awake queue now ∧ (queue.transmitList ≠ [] → queue.sendEvent.isSome)

def handed (front : DeferredPacket) : SendAnswer → List DeferredPacket
  | .refuse => []
  | .accept _ => [front]

theorem sendDeferredPacket_ok {forceOrder : Bool} {queue : PacketQueue} {enqueued accepted : List DeferredPacket} {now : Tick}
    {answer : SendAnswer} {front : DeferredPacket} {rest : List DeferredPacket} (awake : queue.waitingOnRetry = false)
    (unplanned : queue.sendEvent = none) (whole : queue.transmitList = front :: rest) (ready : front.tick ≤ now)
    (timely : SendSide.AnswersAt now answer) (holding : Holding forceOrder queue enqueued accepted) :
    Yields Excused (queue.sendDeferredPacket now answer) fun result =>
      Steady result.1 now ∧ result.1.waitingOnRetry = SendSide.refused answer ∧ ∃ more,
        Holding forceOrder result.1 (enqueued ++ more) (accepted ++ handed front answer) ∧ Made result.2 more (handed front answer) := by
  have isReady : queue.deferredPacketReady now = true := by
    rw [PacketQueue.deferredPacketReady, whole]
    exact decide_eq_true ready
  unfold PacketQueue.sendDeferredPacket
  apply (yields_require (.inl (by rw [awake]; rfl))).bind
  intro _ _
  apply (yields_require (.inl isReady)).bind
  intro _ _
  cases answer with
  | refuse =>
    rw [whole]
    refine ⟨.inl ⟨rfl, unplanned, front, rest, rfl, ready⟩, rfl, [], ?_, made_offered ready⟩
    rw [handed, append_nil, append_nil, ← whole]
    exact ⟨holding.force, holding.unchecked, holding.later, holding.once, holding.order, holding.sorted⟩
  | accept =>
    rw [whole]
    dsimp only
    have popped : Awake { queue with transmitList := rest } now :=
      ⟨awake, fun due event => by rw [show queue.sendEvent = none from unplanned] at event; cases event⟩
    apply (schedEach_ok popped timely (holding.accept whole)).bind
    intro ⟨middle, made⟩ ⟨awake', more, holding', isMade⟩
    have same : { middle with waitingOnRetry := false } = middle := by
      rw [← awake'.awake]
    rw [same]
    have labels : Made (.offered front now :: made ++ [.accepted front]) more [front] := by
      have all := ((made_offered ready).append isMade).append (made_accepted front)
      rw [append_nil] at all
      exact all
    cases list : middle.transmitList with
    | nil =>
      have readyTime : middle.deferredPacketReadyTime = maxTick := by
        rw [PacketQueue.deferredPacketReadyTime, list]
      rw [readyTime]
      apply (schedSendEvent_idle awake'.awake).bind
      intro ⟨last, extra⟩ ⟨draining, isLast, isExtra⟩
      subst isLast
      refine ⟨.inr ⟨⟨awake'.awake, awake'.planned⟩, fun nonempty => absurd list nonempty⟩, awake'.awake, more,
        ⟨holding'.force, holding'.unchecked, holding'.later, holding'.once, holding'.order, holding'.sorted⟩, ?_⟩
      obtain rfl | rfl := isExtra
      · rw [append_nil]
        exact labels
      · have all := labels.append made_drainDone
        rw [append_nil, append_nil] at all
        exact all
    | cons next others =>
      have readyTime : middle.deferredPacketReadyTime = next.tick := by
        rw [PacketQueue.deferredPacketReadyTime, list]
      rw [readyTime]
      have sent := schedSendEvent_front awake'.awake (holding'.later next (by rw [list]; exact mem_cons_self)) (by
        intro due event
        obtain ⟨_, _, isFirst, inTime⟩ := awake'.planned due event
        rw [list] at isFirst
        cases isFirst
        exact inTime)
      apply sent.bind
      intro result ⟨due, same, late, inTime⟩
      subst same
      refine ⟨.inr ⟨⟨awake'.awake, ?_⟩, fun _ => rfl⟩, awake'.awake, more,
        ⟨holding'.force, holding'.unchecked, holding'.later, holding'.once, holding'.order, holding'.sorted⟩, ?_⟩
      · intro planned event
        cases event
        exact ⟨next, others, list, late, inTime⟩
      · rw [append_nil]
        exact labels

/-- The invariant of the sender. -/
structure Sound (forceOrder : Bool) (side : SendSide) (labels : List SendLabel) : Prop where
  steady : Steady side.queue side.now
  owed : side.queue.waitingOnRetry = side.owesRetry
  holding : Holding forceOrder side.queue (enqueuedOf labels) (acceptedOf labels)
  inTime : InTime labels

theorem Sound.extend {forceOrder : Bool} {past labels : List SendLabel} {side : SendSide} {more taken : List DeferredPacket}
    (steady : Steady side.queue side.now) (owed : side.queue.waitingOnRetry = side.owesRetry) (inTime : InTime past)
    (holding : Holding forceOrder side.queue (enqueuedOf past ++ more) (acceptedOf past ++ taken)) (made : Made labels more taken) :
    Sound forceOrder side (past ++ labels) := by
  have all := (show Made past (enqueuedOf past) (acceptedOf past) from ⟨rfl, rfl, inTime⟩).append made
  refine ⟨steady, owed, ?_, all.inTime⟩
  rw [all.enqueued, all.accepted]
  exact holding

theorem Steady.later {now' : Tick} (steady : Steady queue now) (forward : now ≤ now')
    (stop : ∀ due ∈ queue.sendEvent, now' ≤ due) (draining : Bool) : Steady { queue with draining } now' := by
  obtain asleep | ⟨awake, scheduled⟩ := steady
  · obtain ⟨front, rest, whole, ready⟩ := asleep.front
    exact .inl ⟨asleep.asleep, asleep.unplanned, front, rest, whole, Nat.le_trans ready forward⟩
  · refine .inr ⟨⟨awake.awake, fun due event => ?_⟩, scheduled⟩
    obtain ⟨front, rest, whole, late, _⟩ := awake.planned due event
    exact ⟨front, rest, whole, late, stop due event⟩

theorem Steady.stop (steady : Steady queue now) : ∀ due ∈ queue.sendEvent, now ≤ due := by
  intro due event
  obtain asleep | ⟨awake, _⟩ := steady
  · rw [asleep.unplanned] at event
    cases event
  · obtain ⟨_, _, _, _, inTime⟩ := awake.planned due event
    exact inTime

section

variable (sound : Sound forceOrder side past)
include sound

theorem sendEvent_ok {answer : SendAnswer} {due : Tick} (awake : Awake side.queue side.now) (event : side.queue.sendEvent = some due)
    (timely : SendSide.AnswersAt due answer) :
    Yields Excused (SendSide.step side (.sendEvent answer)) fun taken => ∃ front, Sound forceOrder taken.1 (past ++ taken.2) ∧
      side.queue.transmitList.head? = some front ∧ acceptedOf taken.2 = handed front answer := by
  have holding := sound.holding
  obtain ⟨front, rest, whole, ready, _⟩ := awake.planned due event
  unfold SendSide.step
  dsimp only
  rw [event, Option.getD_some, PacketQueue.processSendEvent]
  have sent := @sendDeferredPacket_ok forceOrder { side.queue with sendEvent := none } _ _ due answer front rest awake.awake rfl whole
    ready timely ⟨holding.force, holding.unchecked, holding.later, holding.once, holding.order, holding.sorted⟩
  have processed : Yields Excused (require (!side.queue.waitingOnRetry) "!waitingOnRetry" >>=
      fun _ => { side.queue with sendEvent := none }.sendDeferredPacket due answer) _ :=
    (yields_require (.inl (by rw [awake.awake]; rfl))).bind fun _ _ => sent
  apply processed.bind
  intro ⟨queue, labels⟩ ⟨steady, owed, more, holding', made⟩
  exact ⟨front, Sound.extend steady owed sound.inTime holding' made, by rw [whole]; rfl, made.accepted⟩

theorem retry_ok {answer : SendAnswer} (asleep : Asleep side.queue side.now) (timely : SendSide.AnswersAt side.now answer) :
    Yields Excused (SendSide.step side (.retry answer)) fun taken => ∃ front, Sound forceOrder taken.1 (past ++ taken.2) ∧
      side.queue.transmitList.head? = some front ∧ acceptedOf taken.2 = handed front answer := by
  have holding := sound.holding
  obtain ⟨front, rest, whole, ready⟩ := asleep.front
  have sent := @sendDeferredPacket_ok forceOrder { side.queue with waitingOnRetry := false } _ _ side.now answer front rest rfl
    asleep.unplanned whole ready timely
    ⟨holding.force, holding.unchecked, holding.later, holding.once, holding.order, holding.sorted⟩
  have retried : Yields Excused (side.queue.retry side.now answer) _ := (yields_require (.inl asleep.asleep)).bind fun _ _ => sent
  apply retried.bind
  intro ⟨queue, labels⟩ ⟨steady, owed, more, holding', made⟩
  exact ⟨front, Sound.extend steady owed sound.inTime holding' made, by rw [whole]; rfl, made.accepted⟩

theorem step_ok {op : SendOp} (allowed : side.Allowed op) :
    Yields Excused (SendSide.step side op) fun taken => Sound forceOrder taken.1 (past ++ taken.2) := by
  have quiet : ∀ {next : SendSide}, Steady next.queue next.now → next.queue.waitingOnRetry = next.owesRetry →
      Holding forceOrder next.queue (enqueuedOf past) (acceptedOf past) → Sound forceOrder next (past ++ []) := by
    intro next steady owed holding
    rw [append_nil]
    exact ⟨steady, owed, holding, sound.inTime⟩
  have holding := sound.holding
  cases op with
  | advance =>
    obtain ⟨forward, _, stop⟩ := allowed
    exact quiet (sound.steady.later forward stop side.queue.draining) sound.owed holding
  | drain | drainResume =>
    exact quiet (sound.steady.later (Nat.le_refl _) sound.steady.stop _) sound.owed
      ⟨holding.force, holding.unchecked, holding.later, holding.once, holding.order, holding.sorted⟩
  | schedSendTiming =>
    obtain asleep | ⟨awake, scheduled⟩ := sound.steady
    · apply (schedSendTiming_asleep asleep allowed holding).bind
      intro ⟨queue, labels⟩ ⟨asleep', holding', made⟩
      refine @Sound.extend _ _ _ { side with queue } _ [] (.inl asleep') ?_ sound.inTime ?_ made
      · rw [← sound.owed, asleep.asleep]
        exact asleep'.asleep
      · rw [append_nil]
        exact holding'
    · apply (schedSendTiming_awake awake allowed holding).bind
      intro ⟨queue, labels⟩ ⟨awake', scheduled', holding', made⟩
      refine @Sound.extend _ _ _ { side with queue } _ [] (.inr ⟨awake', fun _ => scheduled' ?_⟩) ?_ sound.inTime ?_ made
      · by_cases empty : side.queue.transmitList = []
        · exact .inl empty
        · exact .inr (scheduled empty)
      · rw [← sound.owed, awake.awake]
        exact awake'.awake
      · rw [append_nil]
        exact holding'
  | sendEvent =>
    obtain ⟨_, event, timely⟩ := allowed
    obtain asleep | ⟨awake, _⟩ := sound.steady
    · rw [asleep.unplanned] at event
      cases event
    · apply (sendEvent_ok sound awake event timely).mono
      intro taken ⟨front, kept, _⟩
      exact kept
  | retry =>
    obtain ⟨owes, timely⟩ := allowed
    obtain asleep | ⟨awake, _⟩ := sound.steady
    · apply (retry_ok sound asleep timely).mono
      intro taken ⟨front, kept, _⟩
      exact kept
    · have waits := sound.owed.trans owes
      rw [awake.awake] at waits
      cases waits

end

/-- What holds of the queue between events, after everything in the labels. -/
structure Protocol (forceOrder : Bool) (side : SendSide) (labels : List SendLabel) : Prop where
  awaited : side.queue.transmitList ≠ [] → Xor (side.queue.waitingOnRetry = true)
    (∃ due front rest, side.queue.sendEvent = some due ∧ side.queue.transmitList = front :: rest ∧ front.tick ≤ due)
  once : (acceptedOf labels ++ side.queue.transmitList).Perm (enqueuedOf labels)
  served : side.queue.transmitList ≠ [] → ∃ op front, side.queue.transmitList.head? = some front ∧ side.Allowed op ∧
    Yields Excused (SendSide.step side op) fun taken => acceptedOf taken.2 = [front]
  inTime : InTime labels
  sorted : forceOrder = false → side.queue.transmitList.Pairwise (·.tick ≤ ·.tick) ∧ ∀ tick,
    (acceptedOf labels).filter (·.tick == tick) ++ side.queue.transmitList.filter (·.tick == tick) = (enqueuedOf labels).filter (·.tick == tick)
  ordered : forceOrder = true → ∀ pkt : Packet, (acceptedOf labels).filter (·.pkt.matchAddr pkt) ++
    side.queue.transmitList.filter (·.pkt.matchAddr pkt) = (enqueuedOf labels).filter (·.pkt.matchAddr pkt)

theorem answersAt_nil (now : Tick) : SendSide.AnswersAt now (.accept []) := fun _ member => absurd member not_mem_nil

theorem Sound.protocol {labels : List SendLabel} (sound : Sound forceOrder side labels) : Protocol forceOrder side labels := by
  have holding := sound.holding
  refine ⟨?_, holding.once, ?_, sound.inTime, ?_, ?_⟩
  · intro nonempty
    obtain asleep | ⟨awake, scheduled⟩ := sound.steady
    · refine .inl ⟨asleep.asleep, ?_⟩
      intro ⟨due, _, _, event, _⟩
      rw [asleep.unplanned] at event
      cases event
    · obtain ⟨due, event⟩ := Option.isSome_iff_exists.mp (scheduled nonempty)
      obtain ⟨front, rest, whole, late, _⟩ := awake.planned due event
      refine .inr ⟨⟨due, front, rest, event, whole, late⟩, ?_⟩
      rw [awake.awake]
      exact nofun
  · intro nonempty
    obtain asleep | ⟨awake, scheduled⟩ := sound.steady
    · obtain ⟨front, rest, whole, _⟩ := asleep.front
      refine ⟨.retry (.accept []), front, by rw [whole]; rfl, ⟨sound.owed.symm.trans asleep.asleep, answersAt_nil _⟩, ?_⟩
      apply (retry_ok sound asleep (answersAt_nil _)).mono
      intro taken ⟨first, _, isFirst, accepted⟩
      rw [whole] at isFirst
      cases isFirst
      exact accepted
    · obtain ⟨due, event⟩ := Option.isSome_iff_exists.mp (scheduled nonempty)
      obtain ⟨front, rest, whole, _⟩ := awake.planned due event
      refine ⟨.sendEvent (.accept []), front, by rw [whole]; rfl, ⟨due, event, answersAt_nil _⟩, ?_⟩
      apply (sendEvent_ok sound awake event (answersAt_nil _)).mono
      intro taken ⟨first, _, isFirst, accepted⟩
      rw [whole] at isFirst
      cases isFirst
      exact accepted
  · intro unforced
    refine ⟨holding.sorted unforced, fun tick => ?_⟩
    subst unforced
    exact holding.order (tick, 0, false)
  · intro forced pkt
    subst forced
    exact holding.order (0, pkt.addr, pkt.isSecure)

theorem new_sound (forceOrder : Bool) : Sound forceOrder (SendSide.new forceOrder) [] := by
  refine ⟨.inr ⟨⟨rfl, fun _ event => ?_⟩, fun nonempty => absurd rfl nonempty⟩, rfl,
    ⟨rfl, rfl, fun _ member => absurd member not_mem_nil, .nil, fun _ => rfl, fun _ => .nil⟩,
    fun _ _ member => absurd member not_mem_nil⟩
  cases event

/-- Every run of the queue keeps its protocol, and only ends early at an express snoop or
at the end of time. -/
theorem deferred_packets (forceOrder : Bool) (ops : List SendOp) (each : Each SendSide.step SendSide.Allowed (SendSide.new forceOrder) ops) :
    Yields Excused (run SendSide.step (SendSide.new forceOrder) ops) fun ended => Protocol forceOrder ended.1 ended.2 := by
  have ran := run_yields Excused SendSide.Allowed (Sound forceOrder) (fun _ _ _ sound allowed => step_ok sound allowed)
    (new_sound forceOrder) each
  apply ran.mono
  intro ended sound
  exact sound.protocol

def deferredResponse (addr : Addr) (isSecure : Bool) : Packet :=
  { Packet.ofRequest { id := 0, paddr := addr, size := 8, flags := 0 } .readResp [] with isSecure }

def sendHistory : List SendOp :=
  [.schedSendTiming (deferredResponse 64 false) 10, .schedSendTiming (deferredResponse 128 false) 5, .schedSendTiming (deferredResponse 64 false) 7,
    .advance 3, .sendEvent .refuse, .schedSendTiming (deferredResponse 64 true) 6, .drain, .advance 9,
    .retry (.accept [(deferredResponse 192 false, 9), (deferredResponse 64 true, 20)]), .sendEvent (.accept []), .sendEvent (.accept []),
    .drainResume]

theorem deferred_packets_history :
    ∃ ended, run SendSide.step (SendSide.new true) sendHistory = .ok ended ∧ Protocol true ended.1 ended.2 := by
  obtain ⟨ended, ran⟩ : ∃ ended, run SendSide.step (SendSide.new true) sendHistory = .ok ended := ⟨_, rfl⟩
  have kept := deferred_packets true sendHistory (by decide)
  rw [ran] at kept
  exact ⟨ended, ran, kept⟩

end ImcGem5.Mem.Proofs.PacketQueue
