import ImcGem5.Mem.Layer

/-! The layer protocol. The ports that wait for a layer stand in one line: the port
the peer refused, then those the layer refused. Seen from outside, every call of
the layer is a turn of that line, and the line of Lib.Line says the rest. -/

namespace ImcGem5.Mem.Proofs.LayerProtocol
open Lib List Option Layer Turn LayerTraffic

variable {π : Type} [DecidableEq π] {period : Tick} {traffic : LayerTraffic π} {port : π}

def line (layer : Layer π) : List π := layer.waitingForPeer.toList ++ layer.waitingForLayer

def turnOf : LayerLabel π → Option (Turn π)
  | .refused port => some (.join port)
  | .passedOn _ => none
  | .failed port => some (.rejoin port)
  | .retried port => some (.serve port)

def turnsOf (labels : List (LayerLabel π)) : List (Turn π) := labels.filterMap turnOf

/-- Where the layer can be, given the calls that have not returned. A packet on its
way to the peer is always the innermost call. -/
inductive Phase (layer : Layer π) (now : Tick) : List (LayerCall π) → Prop where
  | idle (state : layer.state = .idle) (released : layer.releaseEvent = none)
      (unclaimed : layer.waitingForPeer = none → layer.waitingForLayer = [])
      (started : layer.waitingForPeer.isSome → 0 < now) : Phase layer now []
  | occupied {calls : List (LayerCall π)} (state : layer.state = .busy) (scheduled : layer.releaseEvent.isSome)
      (outer : calls = [] ∨ calls = [.retrying]) : Phase layer now calls
  | retrying (state : layer.state = .retry) (released : layer.releaseEvent = none)
      (unclaimed : layer.waitingForPeer = none) (started : 0 < now) : Phase layer now [.retrying]
  | sending {port : π} {calls : List (LayerCall π)} (state : layer.state = .busy) (released : layer.releaseEvent = none)
      (unclaimed : layer.waitingForPeer = none) (absent : port ∉ layer.waitingForLayer)
      (outer : calls = [] ∨ calls = [.retrying]) : Phase layer now (.sending port :: calls)

/-- The layer holds the refused ports; its phase fits its event. -/
structure Valid (traffic : LayerTraffic π) : Prop where
  blocked : traffic.blocked.Perm (line traffic.layer)
  owes : traffic.peerOwes = traffic.layer.waitingForPeer.isSome
  due : ∀ tick, traffic.layer.releaseEvent = some tick → 0 < tick ∧ traffic.now ≤ tick
  nodup : (line traffic.layer).Nodup
  phase : Phase traffic.layer traffic.now traffic.calls
  ticking : 0 < traffic.period

def Advances (traffic : LayerTraffic π) (move : LayerMove π) : Prop :=
  ∃ next labels, step traffic move = .ok (next, labels) ∧ Valid next ∧
    Turn.applyAll (line traffic.layer) (turnsOf labels) = some (line next.layer)

theorem clockEdge_ahead {period : Nat} (ticking : 0 < period) (now cycles : Nat) : now ≤ clockEdge period now cycles := by
  have split := Nat.div_add_mod (now + period - 1) period
  have small := Nat.mod_lt (now + period - 1) ticking
  have commuted := Nat.mul_comm period ((now + period - 1) / period)
  have covered : now ≤ (now + period - 1) / period * period := by omega
  exact Nat.le_add_right_of_le covered

theorem clockEdge_later (ticking : 0 < period) (now : Tick) : now < clockEdge period now 1 := by
  have edge := clockEdge_ahead ticking now 0
  simp only [clockEdge, Nat.mul_zero, Nat.mul_one] at edge ⊢
  exact Nat.lt_of_le_of_lt edge (Nat.add_lt_add_left ticking _)

section Operations
omit [DecidableEq π]

theorem occupyLayer_ok {layer : Layer π} {now deadline : Tick} (state : layer.state = .busy)
    (released : layer.releaseEvent = none) (later : 0 < deadline) (ahead : now ≤ deadline) :
    layer.occupyLayer now deadline =
      .ok { layer with releaseEvent := some deadline, occupancy := layer.occupancy + (deadline - now) } := by
  have nonzero : (deadline != 0) = true := by simp [Nat.pos_iff_ne_zero.mp later]
  simp only [occupyLayer, schedule, state, released, nonzero, ahead, decide_true, isNone_none,
    beq_self_eq_true, require_true, ok_bind]
  rfl

variable {layer : Layer π} {port : π}

theorem succeededTiming_ok {now busyTime : Tick} (state : layer.state = .busy)
    (released : layer.releaseEvent = none) (later : 0 < busyTime) (ahead : now ≤ busyTime) :
    layer.succeededTiming now busyTime =
      .ok { layer with releaseEvent := some busyTime, occupancy := layer.occupancy + (busyTime - now) } := by
  simp only [succeededTiming, occupyLayer_ok state released later ahead]
  simp only [state, beq_self_eq_true, require_true, ok_bind]

theorem failedTiming_ok {now busyTime : Tick} (state : layer.state = .busy)
    (released : layer.releaseEvent = none) (unclaimed : layer.waitingForPeer = none) (later : 0 < busyTime) (ahead : now ≤ busyTime) :
    layer.failedTiming port now busyTime = .ok { layer with
      waitingForPeer := some port
      releaseEvent := some busyTime
      occupancy := layer.occupancy + (busyTime - now) } := by
  have occupied := @occupyLayer_ok π { layer with waitingForPeer := some port } now busyTime state released later ahead
  simp only [failedTiming, occupied]
  simp only [state, unclaimed, isNone_none, beq_self_eq_true, require_true, ok_bind]

theorem recvRetry_idle (state : layer.state = .idle) (claimed : layer.waitingForPeer = some port) :
    layer.recvRetry = .ok ({ layer with state := .retry, waitingForPeer := none }, some port) := by
  simp only [recvRetry, claimed, state, if_true]
  rfl

theorem recvRetry_busy (state : layer.state = .busy) (claimed : layer.waitingForPeer = some port) : layer.recvRetry =
      .ok ({ layer with waitingForLayer := port :: layer.waitingForLayer, waitingForPeer := none }, none) := by
  simp only [recvRetry, claimed, state, reduceCtorEq, if_false]
  rfl

theorem releaseLayer_retries {layer : Layer π} {front : π} {rest : List π} (state : layer.state = .busy)
    (released : layer.releaseEvent = none) (unclaimed : layer.waitingForPeer = none) (waiting : layer.waitingForLayer = front :: rest) :
    layer.releaseLayer = .ok ({ layer with state := .retry, waitingForLayer := rest }, some front) := by
  simp only [releaseLayer, state, released, unclaimed, waiting]
  rfl

theorem releaseLayer_quiet {layer : Layer π} (state : layer.state = .busy) (released : layer.releaseEvent = none)
    (quiet : layer.waitingForPeer = none → layer.waitingForLayer = []) :
    ∃ drainState, layer.releaseLayer = .ok ({ layer with state := .idle, drainState }, none) := by
  cases claimed : layer.waitingForPeer with
  | none =>
    refine ⟨if layer.drainState == .draining then .drained else layer.drainState, ?_⟩
    simp only [releaseLayer, state, released, claimed, quiet claimed]
    cases drained : layer.drainState == .draining <;> rfl
  | some =>
    refine ⟨layer.drainState, ?_⟩
    simp only [releaseLayer, state, released, claimed]
    cases empty : layer.waitingForLayer.isEmpty <;> rfl

end Operations

namespace Phase

variable {layer : Layer π} {now : Tick} {calls : List (LayerCall π)} {port : π}

omit [DecidableEq π] in
theorem of_sending (phase : Phase layer now (.sending port :: calls)) :
    layer.state = .busy ∧ layer.releaseEvent = none ∧ layer.waitingForPeer = none ∧ port ∉ layer.waitingForLayer ∧
      (calls = [] ∨ calls = [.retrying]) := by
  cases phase with
  | occupied _ _ outer => simp at outer
  | sending state released unclaimed absent outer => exact ⟨state, released, unclaimed, absent, outer⟩

omit [DecidableEq π] in
theorem of_retrying (phase : Phase layer now (.retrying :: calls)) :
    calls = [] ∧ (layer.state = .busy ∧ layer.releaseEvent.isSome ∨
      layer.state = .retry ∧ layer.releaseEvent = none ∧ layer.waitingForPeer = none ∧ 0 < now) := by
  cases phase with
  | occupied state scheduled outer =>
    have alone : calls = [] := by simpa using outer
    exact ⟨alone, .inl ⟨state, scheduled⟩⟩
  | retrying state released unclaimed started => exact ⟨rfl, .inr ⟨state, released, unclaimed, started⟩⟩

omit [DecidableEq π] in
theorem refuse (phase : Phase layer now calls) (taken : layer.state = .busy ∨ layer.waitingForPeer.isSome)
    (apart : LayerCall.sending port ∉ calls) :
    Phase { layer with waitingForLayer := layer.waitingForLayer ++ [port] } now calls := by
  cases phase with
  | idle state released unclaimed started =>
    have claimed : layer.waitingForPeer.isSome := taken.resolve_left (by simp [state])
    refine .idle state released (fun unclaimed => ?_) started
    rw [show layer.waitingForPeer = none from unclaimed] at claimed
    cases claimed
  | occupied state scheduled outer => exact .occupied state scheduled outer
  | retrying state released unclaimed started => exact .retrying state released unclaimed started
  | @sending other outside state released unclaimed absent outer =>
    refine .sending state released unclaimed ?_ outer
    have different : other ≠ port := by
      rintro rfl
      exact apart mem_cons_self
    simp [absent, different]

omit [DecidableEq π] in
theorem accept (phase : Phase layer now calls) (free : layer.state ≠ .busy) (unclaimed : layer.waitingForPeer = none)
    (absent : port ∉ layer.waitingForLayer) : Phase { layer with state := .busy } now (.sending port :: calls) := by
  cases phase with
  | idle _ released => exact .sending rfl released unclaimed absent (.inl rfl)
  | occupied state => exact absurd state free
  | retrying _ released => exact .sending rfl released unclaimed absent (.inr rfl)
  | sending state => exact absurd state free

end Phase

theorem advances_unchanged {move : LayerMove π} (valid : Valid traffic)
    (same : step traffic move = .ok (traffic, [])) : Advances traffic move :=
  ⟨traffic, [], same, valid, rfl⟩

theorem send_advances (valid : Valid traffic) (follows : traffic.Follows (.send port)) : Advances traffic (.send port) := by
  have absent : port ∉ line traffic.layer := fun present => follows.1 (valid.blocked.mem_iff.mpr present)
  have apart : port ∉ traffic.layer.waitingForLayer := fun present => absent (mem_append_right _ present)
  by_cases taken : traffic.layer.state = .busy ∨ traffic.layer.waitingForPeer.isSome
  · let layer := { traffic.layer with waitingForLayer := traffic.layer.waitingForLayer ++ [port] }
    have joined : line layer = line traffic.layer ++ [port] := by simp [line, layer]
    have turned : Turn.apply (line traffic.layer) (.join port) = some (line layer) := by
      rw [joined]
      exact if_neg absent
    refine ⟨{ traffic with layer, blocked := port :: traffic.blocked }, [.refused port], ?_, ?_,
      (applyAll_singleton _ _).trans turned⟩
    · simp only [step, tryTiming, taken, apart, not_false_eq_true, decide_true, require_true, if_true, ok_bind]
      rfl
    · refine ⟨?_, valid.owes, valid.due, apply_nodup valid.nodup turned, valid.phase.refuse taken follows.2, valid.ticking⟩
      rw [joined]
      exact (valid.blocked.cons port).trans (perm_append_singleton port _).symm
  · obtain ⟨free, unblocked⟩ := not_or.mp taken
    have unclaimed : traffic.layer.waitingForPeer = none := by simpa using unblocked
    refine ⟨{ traffic with layer := { traffic.layer with state := .busy }, calls := .sending port :: traffic.calls },
      [.passedOn port], ?_, ?_, rfl⟩
    · simp only [step, tryTiming, taken, if_false]
      rfl
    · exact ⟨valid.blocked, valid.owes, valid.due, valid.nodup, valid.phase.accept free unclaimed apart, valid.ticking⟩

theorem answer_advances {success : Bool} {cycles : Nat} {payloadDelay : Tick}
    (valid : Valid traffic) (follows : traffic.Follows (.answer success cycles payloadDelay)) :
    Advances traffic (.answer success cycles payloadDelay) := by
  have phase := valid.phase
  cases calls : traffic.calls with
  | nil => exact advances_unchanged valid (by simp only [step, calls])
  | cons call outer =>
    rw [calls] at phase
    cases call with
    | retrying => exact advances_unchanged valid (by simp only [step, calls])
    | sending port =>
      obtain ⟨state, released, unclaimed, absent, outside⟩ := phase.of_sending
      cases success with
      | true =>
        have later : 0 < clockEdge traffic.period traffic.now cycles + payloadDelay := Nat.pos_of_ne_zero (follows rfl)
        have ahead : traffic.now ≤ clockEdge traffic.period traffic.now cycles + payloadDelay :=
          Nat.le_add_right_of_le (clockEdge_ahead valid.ticking traffic.now cycles)
        refine ⟨{ traffic with
          layer := { traffic.layer with
            releaseEvent := some (clockEdge traffic.period traffic.now cycles + payloadDelay)
            occupancy := traffic.layer.occupancy + (clockEdge traffic.period traffic.now cycles + payloadDelay - traffic.now) }
          calls := outer }, [], ?_, ?_, rfl⟩
        · simp only [step, calls, if_true, succeededTiming_ok state released later ahead]
          rfl
        · refine ⟨valid.blocked, valid.owes, ?_, valid.nodup, .occupied state rfl outside, valid.ticking⟩
          rintro tick ⟨⟩
          exact ⟨later, ahead⟩
      | false =>
        have later := clockEdge_later valid.ticking traffic.now
        have unheard : port ∉ line traffic.layer := by simpa [line, unclaimed] using absent
        let layer := { traffic.layer with
          waitingForPeer := some port
          releaseEvent := some (clockEdge traffic.period traffic.now 1)
          occupancy := traffic.layer.occupancy + (clockEdge traffic.period traffic.now 1 - traffic.now) }
        have rejoined : line layer = port :: line traffic.layer := by simp [layer, line, unclaimed]
        have turned : Turn.apply (line traffic.layer) (.rejoin port) = some (line layer) := by
          rw [rejoined]
          exact if_neg unheard
        refine ⟨{ traffic with layer, calls := outer, blocked := port :: traffic.blocked, peerOwes := true },
          [.failed port], ?_, ?_, (applyAll_singleton _ _).trans turned⟩
        · simp only [step, calls, Bool.false_eq_true, if_false,
            failedTiming_ok state released unclaimed (Nat.zero_lt_of_lt later) (Nat.le_of_lt later)]
          rfl
        · refine ⟨?_, rfl, ?_, ?_, .occupied state rfl outside, valid.ticking⟩
          · rw [rejoined]
            exact valid.blocked.cons port
          · rintro tick ⟨⟩
            exact ⟨Nat.zero_lt_of_lt later, Nat.le_of_lt later⟩
          · exact apply_nodup valid.nodup turned

theorem served {traffic : LayerTraffic π} {layer : Layer π} {port : π} {owes : Bool} (valid : Valid traffic)
    (alone : traffic.calls = []) (front : line traffic.layer = port :: line layer) (state : layer.state = .retry)
    (released : layer.releaseEvent = none) (unclaimed : layer.waitingForPeer = none) (started : 0 < traffic.now)
    (quiet : owes = false) :
    Valid ({ traffic with layer, peerOwes := owes }.sendRetry (some port)).1 ∧
      applyAll (line traffic.layer) (turnsOf [.retried port]) = some (line layer) := by
  have turned : Turn.apply (line traffic.layer) (.serve port) = some (line layer) := by
    rw [front]
    exact if_pos rfl
  refine ⟨⟨?_, ?_, ?_, apply_nodup valid.nodup turned, ?_, valid.ticking⟩, (applyAll_singleton _ _).trans turned⟩
  · have smaller := valid.blocked.erase port
    rwa [front, erase_cons_head] at smaller
  · simp only [sendRetry, quiet, unclaimed, isSome_none]
  · intro tick scheduled
    simp only [sendRetry, released] at scheduled
    cases scheduled
  · simp only [sendRetry, alone]
    exact .retrying state released unclaimed started

theorem peerRetry_advances (valid : Valid traffic) (follows : traffic.Follows .peerRetry) : Advances traffic .peerRetry := by
  have claimed : traffic.layer.waitingForPeer.isSome := valid.owes ▸ follows
  obtain ⟨port, claimed⟩ := isSome_iff_exists.mp claimed
  have front : line traffic.layer = port :: traffic.layer.waitingForLayer := by simp [line, claimed]
  have phase := valid.phase
  generalize calls : traffic.calls = unreturned at phase
  cases phase with
  | idle state released _ started =>
    let layer := { traffic.layer with state := .retry, waitingForPeer := none }
    have kept := @served π _ traffic layer port false valid calls front rfl released rfl (started (by simp [claimed])) rfl
    refine ⟨_, _, ?_, kept.1, kept.2⟩
    simp only [step, recvRetry_idle state claimed]
    rfl
  | occupied state scheduled outer =>
    let layer := { traffic.layer with waitingForLayer := port :: traffic.layer.waitingForLayer, waitingForPeer := none }
    have same : line layer = line traffic.layer := front.symm
    refine ⟨{ traffic with layer, peerOwes := false }, [], ?_, ?_, ?_⟩
    · simp only [step, recvRetry_busy state claimed]
      rfl
    · refine ⟨same ▸ valid.blocked, rfl, valid.due, same ▸ valid.nodup, ?_, valid.ticking⟩
      exact .occupied state scheduled (calls ▸ outer)
    · exact congrArg some same.symm
  | retrying _ _ unclaimed | sending _ _ unclaimed => rw [unclaimed] at claimed; cases claimed

theorem returned_advances (valid : Valid traffic) : Advances traffic .returned := by
  have phase := valid.phase
  cases calls : traffic.calls with
  | nil => exact advances_unchanged valid (by simp only [step, calls])
  | cons call =>
    rw [calls] at phase
    cases call with
    | sending => exact advances_unchanged valid (by simp only [step, calls])
    | retrying =>
      obtain ⟨rfl, ⟨state, scheduled⟩ | ⟨state, released, _, started⟩⟩ := phase.of_retrying
      · refine ⟨{ traffic with calls := [] }, [], ?_, ?_, rfl⟩
        · simp only [step, calls, retrySent, state, reduceCtorEq, if_false]
          rfl
        · exact ⟨valid.blocked, valid.owes, valid.due, valid.nodup, .occupied state scheduled (.inl rfl), valid.ticking⟩
      · have ahead := clockEdge_ahead valid.ticking traffic.now 0
        have later : 0 < clockEdge traffic.period traffic.now 0 := Nat.lt_of_lt_of_le started ahead
        have occupied := @occupyLayer_ok π { traffic.layer with state := .busy } traffic.now _ rfl released later ahead
        refine ⟨{ traffic with
          layer := { traffic.layer with
            state := .busy
            releaseEvent := some (clockEdge traffic.period traffic.now 0)
            occupancy := traffic.layer.occupancy + (clockEdge traffic.period traffic.now 0 - traffic.now) }
          calls := [] }, [], ?_, ?_, rfl⟩
        · simp only [step, calls, retrySent, state, if_true, occupied]
          rfl
        · refine ⟨valid.blocked, valid.owes, ?_, valid.nodup, .occupied rfl rfl (.inl rfl), valid.ticking⟩
          rintro _ ⟨⟩
          exact ⟨later, ahead⟩

theorem release_advances (valid : Valid traffic) : Advances traffic .release := by
  by_cases fires : traffic.calls = [] ∧ traffic.layer.releaseEvent = some traffic.now
  swap
  · exact advances_unchanged valid (by simp only [step, if_neg fires])
  obtain ⟨alone, due⟩ := fires
  have started : 0 < traffic.now := (valid.due _ due).1
  have state : traffic.layer.state = .busy := by
    have phase := valid.phase
    rw [alone] at phase
    cases phase with
    | idle _ released => rw [released] at due; cases due
    | occupied state => exact state
  by_cases quiet : traffic.layer.waitingForPeer = none → traffic.layer.waitingForLayer = []
  · obtain ⟨drainState, done⟩ := @releaseLayer_quiet π { traffic.layer with releaseEvent := none } state rfl quiet
    refine ⟨{ traffic with layer := { traffic.layer with releaseEvent := none, state := .idle, drainState } }, [], ?_, ?_, rfl⟩
    · simp only [step, alone, due, and_self, if_true, done]
      rfl
    · refine ⟨valid.blocked, valid.owes, ?_, valid.nodup, ?_, valid.ticking⟩
      · rintro _ ⟨⟩
      · rw [alone]
        exact .idle rfl rfl quiet fun _ => started
  · obtain ⟨unclaimed, someone⟩ := Classical.not_imp.mp quiet
    obtain ⟨front, rest, waiting⟩ := exists_cons_of_ne_nil someone
    let layer := { traffic.layer with releaseEvent := none, state := .retry, waitingForLayer := rest }
    have done := @releaseLayer_retries π { traffic.layer with releaseEvent := none } front rest state rfl unclaimed waiting
    have kept := @served π _ traffic layer front traffic.peerOwes valid alone (by simp [line, layer, unclaimed, waiting]) rfl
      rfl unclaimed started (by simp [valid.owes, unclaimed])
    refine ⟨_, _, ?_, kept.1, kept.2⟩
    simp only [step, alone, due, and_self, if_true, done]
    rfl

theorem wait_advances {ticks : Tick} (valid : Valid traffic) : Advances traffic (.wait ticks) := by
  by_cases passes : traffic.calls = [] ∧ ∀ due ∈ traffic.layer.releaseEvent, traffic.now + ticks ≤ due
  · refine ⟨{ traffic with now := traffic.now + ticks }, [], by simp only [step, if_pos passes], ?_, rfl⟩
    refine ⟨valid.blocked, valid.owes, ?_, valid.nodup, ?_, valid.ticking⟩
    · intro tick scheduled
      exact ⟨(valid.due tick scheduled).1, passes.2 tick scheduled⟩
    · have phase := valid.phase
      simp only [passes.1] at phase ⊢
      cases phase with
      | idle state released unclaimed started =>
        exact .idle state released unclaimed fun claimed => Nat.add_pos_left (started claimed) ticks
      | occupied state scheduled outer => exact .occupied state scheduled outer
  · exact advances_unchanged valid (by simp only [step, if_neg passes])

omit [DecidableEq π] in
theorem Phase.drained {layer : Layer π} {now : Tick} {calls : List (LayerCall π)} {drainState : DrainState}
    (phase : Phase layer now calls) : Phase { layer with drainState } now calls := by
  cases phase with
  | idle state released unclaimed started => exact .idle state released unclaimed started
  | occupied state scheduled outer => exact .occupied state scheduled outer
  | retrying state released unclaimed started => exact .retrying state released unclaimed started
  | sending state released unclaimed absent outer => exact .sending state released unclaimed absent outer

omit [DecidableEq π] in
theorem Valid.drained {drainState : DrainState} (valid : Valid traffic) : Valid { traffic with layer.drainState := drainState } :=
  ⟨valid.blocked, valid.owes, valid.due, valid.nodup, valid.phase.drained, valid.ticking⟩

theorem step_advances {move : LayerMove π} (valid : Valid traffic) (follows : traffic.Follows move) : Advances traffic move := by
  cases move with
  | send => exact send_advances valid follows
  | answer => exact answer_advances valid follows
  | peerRetry => exact peerRetry_advances valid follows
  | returned => exact returned_advances valid
  | release => exact release_advances valid
  | wait => exact wait_advances valid
  | drain => exact ⟨_, [], rfl, valid.drained, rfl⟩
  | resume =>
    by_cases drained : traffic.layer.drainState = .drained
    · refine ⟨{ traffic with layer.drainState := .running }, [], ?_, valid.drained, rfl⟩
      simp only [step, if_pos drained]
    · exact advances_unchanged valid (by simp only [step, if_neg drained])

/-- No assertion of the layer fails, and the labels of a run move the line. -/
theorem run_advances {moves : List (LayerMove π)} (valid : Valid traffic)
    (follows : Each step LayerTraffic.Follows traffic moves) :
    ∃ final labels, run step traffic moves = .ok (final, labels) ∧ Valid final ∧
      applyAll (line traffic.layer) (turnsOf labels) = some (line final.layer) := by
  let holds := fun (reached : LayerTraffic π) past =>
    Valid reached ∧ applyAll (line traffic.layer) (turnsOf past) = some (line reached.layer)
  have start : holds traffic [] := ⟨valid, rfl⟩
  refine run_total LayerTraffic.Follows holds ?_ start follows
  rintro reached past _ ⟨kept, moved⟩ allowed
  obtain ⟨next, labels, taken, nextKept, nextMoved⟩ := step_advances kept allowed
  refine ⟨next, labels, taken, nextKept, ?_⟩
  rw [turnsOf, filterMap_append, applyAll_append]
  exact bind_eq_some_iff.mpr ⟨_, moved, nextMoved⟩

omit [DecidableEq π] in
theorem valid_start (ticking : 0 < period) : Valid ({ period } : LayerTraffic π) where
  blocked := .nil
  owes := rfl
  due := by rintro tick ⟨⟩
  nodup := nodup_nil
  phase := .idle rfl rfl (fun _ => rfl) (by rintro ⟨⟩)
  ticking := ticking

structure Settled (layer : Layer π) : Prop where
  busy : layer.state = .busy ↔ layer.releaseEvent.isSome
  once : layer.waitingForLayer.Nodup
  apart : ∀ port ∈ layer.waitingForPeer, port ∉ layer.waitingForLayer
  unclaimed : layer.state = .idle → layer.waitingForPeer = none → layer.waitingForLayer = []

/-- Whoever waits will be woken: by the peer, if it refused a packet, and else by the
release of the layer, which tells the first port to retry. -/
structure Wakes (traffic : LayerTraffic π) : Prop where
  peer : traffic.layer.waitingForPeer.isSome → traffic.peerOwes
  retry : ∀ port ∈ traffic.layer.waitingForPeer, traffic.layer.state = .idle →
    ∃ next, step traffic .peerRetry = .ok (next, [.retried port])
  release : traffic.layer.waitingForPeer = none → ∀ front rest, traffic.layer.waitingForLayer = front :: rest →
    ∃ due next, traffic.layer.releaseEvent = some due ∧ traffic.now ≤ due ∧
      step { traffic with now := due } .release = .ok (next, [.retried front])

def Waits (layer : Layer π) (port : π) : Prop := port ∈ layer.waitingForPeer ∨ port ∈ layer.waitingForLayer

instance (layer : Layer π) (port : π) : Decidable (Waits layer port) := inferInstanceAs (Decidable (_ ∨ _))

def refuses (port : π) : LayerLabel π → Bool
  | .refused other | .failed other => other = port
  | _ => false

omit [DecidableEq π] in
theorem mem_line {layer : Layer π} : port ∈ line layer ↔ Waits layer port := by
  simp [line, Waits]

theorem countP_turnsOf (port : π) (labels : List (LayerLabel π)) :
    (turnsOf labels).countP (enters port) = labels.countP (refuses port) ∧
      (turnsOf labels).count (.serve port) = labels.count (.retried port) := by
  induction labels with
  | nil => exact ⟨rfl, rfl⟩
  | cons label _ ih =>
    obtain ⟨entered, served⟩ := ih
    unfold turnsOf at entered served ⊢
    cases label <;>
      simp [turnOf, enters, refuses, filterMap_cons, countP_cons, count_cons, entered, served]

omit [DecidableEq π] in
theorem Valid.settled (valid : Valid traffic) (between : traffic.calls = []) : Settled traffic.layer := by
  have parts := nodup_append.mp valid.nodup
  have phase := valid.phase
  rw [between] at phase
  refine ⟨?_, parts.2.1, ?_, ?_⟩
  · cases phase with
    | idle state released => simp [state, released]
    | occupied state scheduled => simp [state, scheduled]
  · intro port claimed present
    exact parts.2.2 port (mem_toList.mpr claimed) port present rfl
  · intro idle
    cases phase with
    | idle _ _ unclaimed => exact unclaimed
    | occupied state => rw [state] at idle; cases idle

theorem Valid.wakes (valid : Valid traffic) (between : traffic.calls = []) : Wakes traffic := by
  have phase := valid.phase
  rw [between] at phase
  refine ⟨fun claimed => valid.owes.trans claimed, ?_, ?_⟩
  · intro port claimed idle
    let layer := { traffic.layer with state := .retry, waitingForPeer := none }
    refine ⟨({ traffic with layer, peerOwes := false }.sendRetry (some port)).1, ?_⟩
    simp only [step, recvRetry_idle idle claimed]
    rfl
  · intro unclaimed front rest waiting
    cases phase with
    | idle _ _ nobody =>
      rw [nobody unclaimed] at waiting
      cases waiting
    | occupied state scheduled =>
      obtain ⟨due, scheduled⟩ := isSome_iff_exists.mp scheduled
      let layer := { traffic.layer with releaseEvent := none, state := .retry, waitingForLayer := rest }
      refine ⟨due, ({ traffic with now := due, layer }.sendRetry (some front)).1, scheduled, (valid.due due scheduled).2, ?_⟩
      have done := @releaseLayer_retries π { traffic.layer with releaseEvent := none } front rest state rfl unclaimed waiting
      simp only [step, between, scheduled, and_self, if_true, done]
      rfl

def isRetried : LayerLabel π → Bool
  | .retried _ => true
  | _ => false

def isFailed : LayerLabel π → Bool
  | .failed _ => true
  | _ => false

omit [DecidableEq π] in
theorem countP_serves (labels : List (LayerLabel π)) :
    (turnsOf labels).countP isServe = labels.countP isRetried ∧
      (turnsOf labels).countP isRejoin = labels.countP isFailed := by
  induction labels with
  | nil => exact ⟨rfl, rfl⟩
  | cons label _ ih =>
    obtain ⟨served, rejoined⟩ := ih
    unfold turnsOf at served rejoined ⊢
    cases label <;>
      simp [turnOf, isServe, isRejoin, isRetried, isFailed, filterMap_cons, countP_cons, served, rejoined]

theorem balanced {final : LayerTraffic π} {labels : List (LayerLabel π)} (valid : Valid final)
    (moved : applyAll (line ({ period } : LayerTraffic π).layer) (turnsOf labels) = some (line final.layer)) (port : π) :
    labels.countP (refuses port) = labels.count (.retried port) + if Waits final.layer port then 1 else 0 := by
  obtain ⟨entered, served⟩ := countP_turnsOf port labels
  have balance := applyAll_balance port moved
  rw [entered, served, List.Nodup.count valid.nodup] at balance
  simp only [mem_line] at balance
  exact (Nat.zero_add _).symm.trans balance

/-- While a port waits, others are told to retry at most as often as there are ports
ahead of it and packets that the peer refuses again. -/
theorem overtaken {final : LayerTraffic π} {labels : List (LayerLabel π)} (valid : Valid traffic)
    (waits : Waits traffic.layer port) (unserved : .retried port ∉ labels)
    (moved : applyAll (line traffic.layer) (turnsOf labels) = some (line final.layer)) :
    Waits final.layer port ∧
      labels.countP isRetried ≤ (line traffic.layer).idxOf port + labels.countP isFailed := by
  obtain ⟨_, _⟩ := countP_serves labels
  have absent : Turn.serve port ∉ turnsOf labels := by
    rw [← count_eq_zero, (countP_turnsOf port labels).2, count_eq_zero]
    exact unserved
  obtain ⟨present, _⟩ := applyAll_rank valid.nodup (mem_line.mpr waits) absent moved
  exact ⟨mem_line.mp present, by omega⟩

/-- The layer protocol, for ports and a peer that keep to theirs. -/
theorem layer_protocol {period : Tick} (ticking : 0 < period) {moves : List (LayerMove π)}
    (follows : Each LayerTraffic.step LayerTraffic.Follows { period } moves) :
    ∃ final labels, run LayerTraffic.step { period } moves = .ok (final, labels) ∧
      (final.calls = [] → Settled final.layer ∧ Wakes final) ∧
      (∀ port, labels.countP (refuses port) = labels.count (.retried port) + if Waits final.layer port then 1 else 0) ∧
      ∀ more, Each LayerTraffic.step LayerTraffic.Follows final more →
        ∃ last later, run LayerTraffic.step final more = .ok (last, later) ∧
          ∀ port, Waits final.layer port → .retried port ∈ later ∨
            Waits last.layer port ∧ later.countP isRetried ≤ (line final.layer).idxOf port + later.countP isFailed := by
  obtain ⟨final, labels, ran, valid, moved⟩ := run_advances (valid_start ticking) follows
  refine ⟨final, labels, ran, fun between => ⟨valid.settled between, valid.wakes between⟩, balanced valid moved, ?_⟩
  intro more followsMore
  obtain ⟨last, later, ranMore, _, movedMore⟩ := run_advances valid followsMore
  refine ⟨last, later, ranMore, fun port waits => ?_⟩
  by_cases served : .retried port ∈ later
  · exact .inl served
  · exact .inr (overtaken valid waits served movedMore)

/-- The peer refuses port 0 while port 1 waits for the layer; port 0 sends again from
inside its retry, and port 1 lets its own go by. -/
def twoPorts : List (LayerMove Nat) :=
  [.send 0, .answer false 1 0, .send 1, .wait 500, .release, .peerRetry, .send 0, .answer true 1 64, .returned,
    .wait 564, .release, .returned, .wait 436, .release]

def twoPortsLabels : List (LayerLabel Nat) :=
  [.passedOn 0, .failed 0, .refused 1, .retried 0, .passedOn 0, .retried 1]

theorem two_ports_served : ∃ final, run LayerTraffic.step { period := 500 } twoPorts = .ok (final, twoPortsLabels) ∧
    Settled final.layer ∧ Wakes final := by
  have follows : Each step LayerTraffic.Follows { period := 500 } twoPorts := by decide
  obtain ⟨final, _, ran, between, _⟩ := layer_protocol (by decide) follows
  have computed : run step { period := 500 } twoPorts =
      .ok ({ period := 500, now := 1500, layer := { occupancy := 1500 } }, twoPortsLabels) := by decide
  obtain ⟨rfl, rfl⟩ := Prod.mk.inj (Except.ok.inj (ran.symm.trans computed))
  exact ⟨_, computed, between rfl⟩

end ImcGem5.Mem.Proofs.LayerProtocol
