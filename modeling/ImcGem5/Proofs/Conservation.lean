import ImcGem5.Isa.Instruction
import ImcGem5.Proofs.Controller

/-! Request conservation. Every step of a controller balances the requests it took
against the responses it sent and holds, and in-memory operations are the one
entry that stays open: they are accepted as requests that ask for a response and
leave the controller without one. -/

namespace ImcGem5.Mem.Proofs
open Lib List

namespace MemLabel

def owes (who : Nat → Bool) : MemLabel → Bool
  | .accepted pkt => pkt.needsResponse && who pkt.req.id
  | _ => false

def answers (who : Nat → Bool) : MemLabel → Bool
  | .responded pkt => who pkt.req.id
  | _ => false

def swallows (who : Nat → Bool) : MemLabel → Bool
  | .accepted pkt => pkt.needsResponse && (dispatch pkt.req.flags).isSome && who pkt.req.id
  | _ => false

end MemLabel

def owed (who : Nat → Bool) (labels : List MemLabel) : Nat := labels.countP (MemLabel.owes who)
def answered (who : Nat → Bool) (labels : List MemLabel) : Nat := labels.countP (MemLabel.answers who)
def swallowed (who : Nat → Bool) (labels : List MemLabel) : Nat := labels.countP (MemLabel.swallows who)
def queued (who : Nat → Bool) (queue : List DeferredPacket) : Nat := queue.countP fun deferred => who deferred.pkt.req.id

def Balanced (who : Nat → Bool) (before after : List DeferredPacket) (labels : List MemLabel) : Prop :=
  queued who after + answered who labels + swallowed who labels = queued who before + owed who labels

variable {who : Nat → Bool}

theorem Balanced.append {first second third : List DeferredPacket} {early late : List MemLabel}
    (one : Balanced who first second early) (two : Balanced who second third late) :
    Balanced who first third (early ++ late) := by
  simp only [Balanced, owed, answered, swallowed, countP_append] at one two ⊢
  omega

theorem balanced_nil (queue : List DeferredPacket) : Balanced who queue queue [] := rfl

theorem balanced_effects (queue : List DeferredPacket) (effects : List Effect) : Balanced who queue queue (effects.map .effect) := by
  have none : ∀ count : MemLabel → Bool, (∀ effect, count (.effect effect) = false) →
      (effects.map MemLabel.effect).countP count = 0 := by
    intro count outside
    rw [countP_eq_zero]
    intro label member
    obtain ⟨effect, _, rfl⟩ := List.mem_map.mp member
    simp [outside effect]
  simp only [Balanced, owed, answered, swallowed]
  rw [none _ fun _ => rfl, none _ fun _ => rfl, none _ fun _ => rfl]

theorem queued_emplace (deferred : DeferredPacket) (queue : List DeferredPacket) :
    queued who (emplace deferred queue) = queued who queue + if who deferred.pkt.req.id then 1 else 0 := by
  unfold queued
  rw [(emplace_perm deferred queue).countP_eq, countP_cons]

variable {ctrl next : MemCtrl} {pkt : Packet} {labels : List MemLabel}

theorem processed_balanced (processed : Processed ctrl next pkt labels) : Balanced who ctrl.packetQueue next.packetQueue labels := by
  cases processed with
  | @inMemory op effects dispatched handled queue made =>
    have entry : Balanced who ctrl.packetQueue next.packetQueue [.accepted pkt, .computed op pkt.req.id] := by
      rw [queue]
      simp [Balanced, owed, answered, swallowed, countP_cons, MemLabel.owes, MemLabel.answers, MemLabel.swallows, dispatched]
    rw [made]
    exact entry.append (balanced_effects _ effects)
  | @ordinary tick result effects undispatched quiet accessed queue made =>
    obtain ⟨sameId, _⟩ := access_response accessed
    have entry : Balanced who ctrl.packetQueue next.packetQueue [.accepted pkt] := by
      rw [queue]
      cases needs : pkt.needsResponse with
      | false => simp [Balanced, owed, answered, swallowed, MemLabel.owes, MemLabel.answers, MemLabel.swallows, needs]
      | true =>
        simp only [Balanced, if_true, queued_emplace, sameId]
        simp [owed, answered, swallowed, MemLabel.owes, MemLabel.answers, MemLabel.swallows, needs, undispatched]
    rw [made]
    exact entry.append (balanced_effects _ effects)

theorem recvTimingReq_balanced {now : Tick} {random : Nat} {taken : Bool}
    (ran : ctrl.recvTimingReq now random pkt = .ok (next, taken, labels)) : Balanced who ctrl.packetQueue next.packetQueue labels := by
  cases recvTimingReq_cases ran with
  | refused _ _ queue =>
    rw [queue]
    rfl
  | accepted _ _ processed => exact processed_balanced processed

theorem balanced_responded {deferred : DeferredPacket} {queue : List DeferredPacket}
    (first : queue.head? = some deferred) : Balanced who queue queue.tail [.responded deferred.pkt] := by
  cases queue with
  | nil => cases first
  | cons =>
    cases first
    cases picked : who deferred.pkt.req.id <;>
      simp [Balanced, queued, owed, answered, swallowed, MemLabel.owes, MemLabel.answers, MemLabel.swallows, picked]

theorem balanced_preserved (start : List DeferredPacket) :
    Preserved (fun _ _ => True) fun ctrl past => Balanced who start ctrl.packetQueue past where
  content same balanced := by
    rw [same.packetQueue]
    exact balanced
  received balanced _ ran := balanced.append (recvTimingReq_balanced ran)
  responded balanced front _ queue := by
    rw [queue]
    exact balanced.append (balanced_responded front)
  retried balanced := balanced.append rfl

theorem run_balanced {final : MemCtrl} {events : List MemEvent} (ran : run MemCtrl.step ctrl events = .ok (final, labels)) :
    Balanced who ctrl.packetQueue final.packetQueue labels := by
  refine (balanced_preserved ctrl.packetQueue).run (balanced_nil _) ?_ ran
  exact each_of_forall (fun _ _ _ => offered_any) ctrl

def Swallows (ctrl : MemCtrl) (pkt : Packet) : Prop :=
  ctrl.retryReq = false ∧ ctrl.isBusy = false ∧ pkt.needsResponse = true ∧ (dispatch pkt.req.flags).isSome = true

def Clean : MemCtrl → MemEvent → Prop := Offered fun ctrl pkt => ¬ Swallows ctrl pkt

/-- Total: what was accepted for a response was answered or is queued. Each: so it
is for every single request. -/
structure Conserved (ctrl : MemCtrl) (labels : List MemLabel) : Prop where
  total : owed (fun _ => true) labels = answered (fun _ => true) labels + ctrl.packetQueue.length
  each : ∀ request, owed (· == request) labels = answered (· == request) labels + queued (· == request) ctrl.packetQueue

theorem swallowed_append (early late : List MemLabel) :
    swallowed who (early ++ late) = 0 ↔ swallowed who early = 0 ∧ swallowed who late = 0 := by
  simp only [swallowed, countP_append]
  omega

theorem recvTimingReq_swallowed {now : Tick} {random : Nat} {taken : Bool}
    (ran : ctrl.recvTimingReq now random pkt = .ok (next, taken, labels)) : swallowed (fun _ => true) labels = 0 ↔ ¬ Swallows ctrl pkt := by
  cases recvTimingReq_cases ran with
  | refused waiting =>
    refine ⟨fun _ swallows => ?_, fun _ => rfl⟩
    obtain ⟨fresh, idle, _⟩ := swallows
    rcases waiting with retrying | busy
    · rw [fresh] at retrying
      cases retrying
    · rw [idle] at busy
      cases busy
  | accepted idle fresh processed =>
    cases processed with
    | @inMemory op effects dispatched handled queue made =>
      rw [made, swallowed_append]
      simp [Swallows, idle, fresh, dispatched, swallowed, countP_cons, MemLabel.swallows]
    | @ordinary tick result effects undispatched quiet accessed queue made =>
      rw [made, ← singleton_append, swallowed_append]
      simp [Swallows, undispatched, swallowed, MemLabel.swallows]

theorem run_swallowed {final : MemCtrl} {events : List MemEvent} (ran : run MemCtrl.step ctrl events = .ok (final, labels)) :
    swallowed (fun _ => true) labels = 0 ↔ Each MemCtrl.step Clean ctrl events := by
  let quiet := fun past => swallowed (fun _ => true) past = 0
  refine run_quiet_iff Clean quiet rfl swallowed_append ?_ ran
  intro before event after made taken
  exact step_quiet_iff _ quiet rfl swallowed_append (fun _ => rfl) rfl recvTimingReq_swallowed taken

theorem swallowed_le (who : Nat → Bool) (labels : List MemLabel) : swallowed who labels ≤ swallowed (fun _ => true) labels := by
  apply countP_mono_left
  intro label _ counted
  cases label with
  | accepted =>
    simp only [MemLabel.swallows, Bool.and_eq_true] at counted ⊢
    exact ⟨counted.1, trivial⟩
  | _ => cases counted

/-- The account closes without an open entry exactly in the runs where every request
that asked for a response got past the in-memory handlers. -/
theorem conserved_iff {ctrl final : MemCtrl} {events : List MemEvent} {labels : List MemLabel}
    (drained : ctrl.packetQueue = []) (ran : run MemCtrl.step ctrl events = .ok (final, labels)) :
    Conserved final labels ↔ Each MemCtrl.step Clean ctrl events := by
  rw [← run_swallowed ran]
  have account : ∀ who, queued who final.packetQueue + answered who labels + swallowed who labels = owed who labels := by
    intro who
    have balanced : Balanced who ctrl.packetQueue final.packetQueue labels := run_balanced ran
    rw [Balanced, drained] at balanced
    simpa [queued] using balanced
  have whole : queued (fun _ => true) final.packetQueue = final.packetQueue.length := by
    simp [queued]
  constructor
  · intro conserved
    have total := account fun _ => true
    have claimed := conserved.total
    omega
  · intro none
    refine ⟨?_, fun request => ?_⟩
    · have total := account fun _ => true
      omega
    · have mine := account (· == request)
      have bound := swallowed_le (· == request) labels
      omega

theorem read_conserved : ∃ final labels,
    run MemCtrl.step idleMemory [.recvTimingReq 0 0 (firstRead 0), .dequeue 0 [] true] = .ok (final, labels) ∧
      Conserved final labels := by
  have clean : Each MemCtrl.step Clean idleMemory [.recvTimingReq 0 0 (firstRead 0), .dequeue 0 [] true] := by
    refine ⟨fun swallows => ?_, trivial, trivial⟩
    exact absurd swallows.2.2.2 (by decide)
  exact ⟨_, _, rfl, (conserved_iff rfl rfl).mpr clean⟩

/-- One CMPIMC leaves a request that is neither answered nor queued. -/
theorem cmpimc_not_conserved : ∃ final labels,
    run MemCtrl.step idleMemory [.recvTimingReq 0 0 (Isa.imcPacket 7 .cmpimc [0, 8, 16])] = .ok (final, labels) ∧
      ¬ Conserved final labels :=
  ⟨_, _, rfl, fun conserved => absurd conserved.total (by decide)⟩

end ImcGem5.Mem.Proofs
