import ImcGem5.Proofs.Controller
import Mathlib.Data.List.Forall2

/-! The order of responses. A response may be queued in front of earlier ones, but never in
front of one for the same address, so that for each address responses are queued and sent in
the order in which the requests came. -/

namespace ImcGem5.Mem.Proofs.ResponseOrder
open Lib List

structure Place where
  addr : Addr
  isSecure : Bool

variable {place : Place}

def Place.of (place : Place) (pkt : Packet) : Bool := pkt.addr == place.addr && pkt.isSecure == place.isSecure

theorem matchAddr_of_place {first second : Packet} (one : place.of first = true) (two : place.of second = true) :
    first.matchAddr second = true := by
  simp only [Place.of, Packet.matchAddr, Bool.and_eq_true, beq_iff_eq] at one two ⊢
  rw [one.1, one.2, two.1, two.2]
  exact ⟨rfl, rfl⟩

def waiting (place : Place) (queue : List DeferredPacket) : List Packet := (queue.map (·.pkt)).filter place.of

def response : MemLabel → Option Packet
  | .responded pkt => some pkt
  | _ => none

def request : MemLabel → Option Packet
  | .accepted pkt => some pkt
  | _ => none

def Place.expects (place : Place) (pkt : Packet) : Bool :=
  place.of pkt && pkt.needsResponse && (dispatch pkt.req.flags).isNone

def sent (place : Place) (labels : List MemLabel) : List Packet := (labels.filterMap response).filter place.of

def accepted (place : Place) (labels : List MemLabel) : List Packet := (labels.filterMap request).filter place.expects

theorem insertBack_waiting (deferred : DeferredPacket) (queue : List DeferredPacket) :
    waiting place (insertBack deferred queue) =
      if place.of deferred.pkt then deferred.pkt :: waiting place queue else waiting place queue := by
  induction queue with
  | nil => simp [insertBack, waiting, filter_cons]
  | cons last earlier ih =>
    cases earlier with
    | nil => simp [insertBack, waiting, filter_cons]
    | cons next =>
      simp only [insertBack]
      split
      next passed =>
        simp only [Bool.and_eq_true, Bool.not_eq_true'] at passed
        have apart : place.of deferred.pkt = true → place.of last.pkt = false := by
          intro here
          by_contra same
          rw [Bool.not_eq_false] at same
          have matching := matchAddr_of_place same here
          rw [passed.2] at matching
          cases matching
        have outer : ∀ others, waiting place (last :: others) =
            if place.of last.pkt then last.pkt :: waiting place others else waiting place others := by
          intro others
          simp [waiting, filter_cons]
        rw [outer, ih, outer]
        by_cases here : place.of deferred.pkt = true
        · simp [here, apart here]
        · simp [here]
      next stopped => simp [waiting, filter_cons]

theorem emplace_waiting (deferred : DeferredPacket) (queue : List DeferredPacket) :
    waiting place (emplace deferred queue) =
      waiting place queue ++ if place.of deferred.pkt then [deferred.pkt] else [] := by
  have turned : ∀ queue, waiting place queue.reverse = (waiting place queue).reverse := by
    intro queue
    simp [waiting]
  rw [emplace, turned, insertBack_waiting, turned]
  split <;> simp

structure Answers (request response : Packet) : Prop where
  id : response.req.id = request.req.id
  cmd : response.cmd = request.cmd.responseCommand
  addr : response.addr = request.addr
  isSecure : response.isSecure = request.isSecure

/-- Sent and waiting responses are those of the accepted requests, in their order. -/
def InOrder (place : Place) (queue : List DeferredPacket) (labels : List MemLabel) : Prop :=
  List.Forall₂ Answers (accepted place labels) (sent place labels ++ waiting place queue)

theorem sent_append (early late : List MemLabel) : sent place (early ++ late) = sent place early ++ sent place late := by
  simp [sent]

theorem accepted_append (early late : List MemLabel) :
    accepted place (early ++ late) = accepted place early ++ accepted place late := by
  simp [accepted]

variable {past labels : List MemLabel}

theorem InOrder.silent {queue : List DeferredPacket} (ordered : InOrder place queue past)
    (unsent : sent place labels = []) (unaccepted : accepted place labels = []) : InOrder place queue (past ++ labels) := by
  rw [InOrder, sent_append, accepted_append, unsent, unaccepted, append_nil, append_nil]
  exact ordered

theorem effects_silent (place : Place) (effects : List Effect) :
    sent place (effects.map .effect) = [] ∧ accepted place (effects.map .effect) = [] := by
  constructor <;> simp [sent, accepted, response, request]

theorem in_order_processed {ctrl next : MemCtrl} {pkt : Packet}
    (ordered : InOrder place ctrl.packetQueue past) (processed : Processed ctrl next pkt labels) :
    InOrder place next.packetQueue (past ++ labels) := by
  cases processed with
  | @inMemory op effects dispatched handled queue made =>
    obtain ⟨unsent, unaccepted⟩ := effects_silent place effects
    rw [queue, made]
    apply ordered.silent
    · rw [sent_append, unsent]
      rfl
    · rw [accepted_append, unaccepted]
      simp [accepted, request, Place.expects, dispatched]
  | @ordinary tick result effects undispatched quiet accessed queue made =>
    obtain ⟨unsent, unaccepted⟩ := effects_silent place effects
    obtain ⟨sameId, turned⟩ := access_response accessed
    obtain ⟨sameAddr, sameSecure⟩ := access_matches accessed
    have same : place.of result = place.of pkt := by rw [Place.of, Place.of, sameAddr, sameSecure]
    have silent : sent place labels = [] := by
      rw [made, ← singleton_append, sent_append, unsent]
      rfl
    have taken : accepted place labels = if place.expects pkt then [pkt] else [] := by
      rw [made, ← singleton_append, accepted_append, unaccepted, append_nil]
      exact filter_cons
    rw [InOrder, sent_append, accepted_append, silent, taken, queue, append_nil]
    by_cases needs : pkt.needsResponse = true
    · have answers : Answers pkt result := ⟨sameId, turned needs quiet, sameAddr, sameSecure⟩
      have expected : place.expects pkt = place.of pkt := by simp [Place.expects, needs, undispatched]
      rw [if_pos needs, emplace_waiting, same, expected, ← append_assoc]
      apply rel_append ordered
      split
      · exact .cons answers .nil
      · exact .nil
    · have unexpected : ¬place.expects pkt = true := by simp [Place.expects, needs]
      rw [if_neg needs, if_neg unexpected, append_nil]
      exact ordered

theorem in_order_received {ctrl next : MemCtrl} {now : Tick} {random : Nat} {pkt : Packet} {taken : Bool}
    (ordered : InOrder place ctrl.packetQueue past) (ran : ctrl.recvTimingReq now random pkt = .ok (next, taken, labels)) :
    InOrder place next.packetQueue (past ++ labels) := by
  cases recvTimingReq_cases ran with
  | refused _ _ queue =>
    rw [queue]
    exact ordered.silent rfl rfl
  | accepted _ _ processed => exact in_order_processed ordered processed

theorem in_order_responded {deferred : DeferredPacket} {queue : List DeferredPacket}
    (ordered : InOrder place queue past) (front : queue.head? = some deferred) :
    InOrder place queue.tail (past ++ [.responded deferred.pkt]) := by
  obtain ⟨rest, rfl⟩ : ∃ rest, queue = deferred :: rest := by
    cases queue with
    | nil => cases front
    | cons _ rest =>
      cases front
      exact ⟨rest, rfl⟩
  have moved : sent place (past ++ [.responded deferred.pkt]) ++ waiting place rest =
      sent place past ++ waiting place (deferred :: rest) := by
    rw [sent_append, append_assoc]
    congr 1
    simp only [sent, waiting, filterMap_cons, filterMap_nil, response, map_cons, filter_cons, filter_nil]
    split <;> rfl
  have unaccepted : accepted place [.responded deferred.pkt] = [] := rfl
  rw [InOrder, accepted_append, tail_cons, moved, unaccepted, append_nil]
  exact ordered

theorem in_order_preserved (place : Place) :
    Preserved (fun _ _ => True) fun ctrl past => InOrder place ctrl.packetQueue past where
  content same ordered := by
    rw [same.packetQueue]
    exact ordered
  received ordered _ ran := in_order_received ordered ran
  responded ordered front _ queue := by
    rw [queue]
    exact in_order_responded ordered front
  retried ordered := ordered.silent rfl rfl

/-- For every address and security bit, the responses sent are those of the first requests
accepted, in the same order, and the responses queued are those of the rest. -/
theorem responses_in_order {ctrl final : MemCtrl} {events : List MemEvent} {labels : List MemLabel}
    (drained : ctrl.packetQueue = []) (ran : run MemCtrl.step ctrl events = .ok (final, labels)) (place : Place) :
    List.Forall₂ Answers (accepted place labels) (sent place labels ++ waiting place final.packetQueue) := by
  have start : InOrder place ctrl.packetQueue [] := by
    rw [drained]
    exact .nil
  exact (in_order_preserved place).run start (each_of_forall (fun _ _ _ => offered_any) ctrl) ran

def lateRead (id : Nat) (delay : Tick) : Packet :=
  { Packet.ofRequest { id, paddr := 0, size := 32, flags := 0 } .readReq (List.replicate 32 0) with headerDelay := delay }

def lateReads : List MemEvent :=
  [.recvTimingReq 0 0 (lateRead 1 10), .recvTimingReq 0 0 (lateRead 2 0), .dequeue 10 [] true]

theorem late_reads_in_order : ∃ final labels, run MemCtrl.step idleMemory lateReads = .ok (final, labels) ∧
    List.Forall₂ Answers (accepted ⟨0, false⟩ labels) (sent ⟨0, false⟩ labels ++ waiting ⟨0, false⟩ final.packetQueue) := by
  have ends : ∃ final labels, run MemCtrl.step idleMemory lateReads = .ok (final, labels) := ⟨_, _, rfl⟩
  obtain ⟨final, labels, ran⟩ := ends
  exact ⟨final, labels, ran, responses_in_order rfl ran ⟨0, false⟩⟩

end ImcGem5.Mem.Proofs.ResponseOrder
