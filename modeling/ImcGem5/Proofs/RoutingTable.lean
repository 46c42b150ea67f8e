import ImcGem5.Proofs.Routing

/-! The size check of a coherent crossbar, and the accounts of the routing table as a
whole. Of the errors that stop a run the check is one; a run of sequential accesses
never stops there, since each finds the table empty. -/

namespace ImcGem5.Mem.Proofs.Routing
open Lib CoherentXBar

def tableExceeded : Abort := .panic "Routing table exceeds packets"

def Spares {α : Type} (result : Except Abort α) : Prop := Avoids tableExceeded result

def Clears {α : Type} (result : Except SystemAbort α) : Prop := Avoids (.crossbar tableExceeded) result

theorem Spares.own {α : Type} {result : Except Abort α} (spared : Spares result) : Clears (own result) := by
  intro failed
  cases result with
  | ok => cases failed
  | error =>
    cases failed
    exact spared rfl

theorem clears_below {α : Type} (port : PortID) (result : Except Abort α) : Clears (below port result) := by
  intro failed
  cases result <;> cases failed

theorem spares_require (condition : Bool) (text : String) : Spares (require condition text) := by
  cases condition <;> exact nofun

theorem spares_panicIf {condition : Bool} {message : String} (other : message ≠ "Routing table exceeds packets") :
    Spares (panicIf condition message) := by
  cases condition with
  | false => exact nofun
  | true =>
    intro failed
    exact other (Abort.panic.inj (Except.error.inj failed))

theorem spares_schedule (now : Tick) (slot : Option Tick) (due : Tick) : Spares (schedule now slot due) :=
  (spares_require _ _).bind fun _ _ => (spares_require _ _).bind fun _ _ => avoids_ok _ _

section Layers

variable {π : Type} (layer : Layer π) (now busyTime : Tick)

theorem spares_occupyLayer : Spares (layer.occupyLayer now busyTime) :=
  (spares_require _ _).bind fun _ _ => (spares_require _ _).bind fun _ _ =>
    (spares_schedule _ _ _).bind fun _ _ => avoids_ok _ _

theorem spares_tryTiming [DecidableEq π] (port : π) : Spares (layer.tryTiming port) := by
  unfold Layer.tryTiming
  split
  · exact (spares_require _ _).bind fun _ _ => avoids_ok _ _
  · exact avoids_ok _ _

theorem spares_succeededTiming : Spares (layer.succeededTiming now busyTime) :=
  (spares_require _ _).bind fun _ _ => spares_occupyLayer _ _ _

theorem spares_failedTiming (port : π) : Spares (layer.failedTiming port now busyTime) :=
  (spares_require _ _).bind fun _ _ => (spares_require _ _).bind fun _ _ => spares_occupyLayer _ _ _

theorem spares_retryWaiting : Spares layer.retryWaiting := by
  unfold Layer.retryWaiting
  split
  · exact nofun
  · exact (spares_require _ _).bind fun _ _ => avoids_ok _ _

theorem spares_retrySent : Spares (layer.retrySent now busyTime) := by
  unfold Layer.retrySent
  split
  · exact spares_occupyLayer _ _ _
  · exact avoids_ok _ _

theorem spares_releaseLayer : Spares layer.releaseLayer := by
  refine (spares_require _ _).bind fun _ _ => (spares_require _ _).bind fun _ _ => ?_
  dsimp only
  split
  · split
    · exact (spares_retryWaiting _).bind fun _ _ => avoids_ok _ _
    · exact avoids_ok _ _
  · split <;> exact avoids_ok _ _

theorem spares_recvRetry : Spares layer.recvRetry := by
  unfold Layer.recvRetry
  split
  · exact nofun
  · dsimp only
    split
    · exact (spares_retryWaiting _).bind fun _ _ => avoids_ok _ _
    · exact (spares_require _ _).bind fun _ _ => avoids_ok _ _

end Layers

section Crossbar

variable (params : XBarParams) (coherent : CoherentParams) (xbar : XBar) (now : Tick) (pkt : Packet) (req : Nat)
  (port : PortID)

theorem spares_findPort : Spares (params.findPort pkt) := by
  unfold XBarParams.findPort
  split
  · exact avoids_ok _ _
  · intro failed
    exact absurd (Abort.panic.inj (Except.error.inj failed)) (by decide)

theorem spares_calcPacketTiming (delay : Tick) : Spares (params.calcPacketTiming now pkt delay) :=
  (spares_panicIf (by decide)).bind fun _ _ => avoids_ok _ _

theorem spares_route : Spares (xbar.route params req) := by
  unfold XBar.route
  split
  · exact nofun
  · exact (spares_require _ _).bind fun _ _ => avoids_ok _ _

theorem spares_remember : Spares (xbar.remember req port) := (spares_require _ _).bind fun _ _ => avoids_ok _ _

theorem spares_expectSnoop : Spares (expectSnoop coherent xbar pkt) :=
  (spares_require _ _).bind fun _ _ => (spares_panicIf (by decide)).bind fun _ _ => avoids_ok _ _

theorem spares_respond (response : Option (PortID × Packet)) : Spares (respond response) := by
  cases response with
  | none => exact avoids_ok _ _
  | some =>
    refine Avoids.bind ?_ fun _ _ => avoids_ok _ _
    exact (spares_require _ _).bind fun _ _ => (spares_require _ _).bind fun _ _ => avoids_ok _ _

theorem spares_checkRoutingTable (fits : xbar.routeTo.length ≤ coherent.maxRoutingTableSizeCheck) :
    Spares (checkRoutingTable coherent xbar) := by
  have passes : decide (xbar.routeTo.length > coherent.maxRoutingTableSizeCheck) = false := by simpa using fits
  rw [checkRoutingTable, passes]
  exact nofun

def AtMost (req : Nat) (xbar : XBar) : Prop := ∀ entry ∈ xbar.routeTo, entry.1 = req

theorem remember_first {xbar next : XBar} {req : Nat} {port : PortID} (alone : AtMost req xbar)
    (done : xbar.remember req port = .ok next) : next.routeTo = [(req, port)] := by
  obtain ⟨absent, done⟩ := of_require done
  cases done
  have empty : xbar.routeTo = [] := by
    refine List.eq_nil_iff_forall_not_mem.mpr fun entry member => ?_
    have apart := List.lookup_eq_none_iff.mp (Option.isNone_iff_eq_none.mp absent) entry member
    simp [alone entry member] at apart
  rw [empty]

theorem spares_first {α : Type} (limit : 0 < coherent.maxRoutingTableSizeCheck) (alone : AtMost req xbar) (result : XBar → α) :
    Spares (do
      let next ← xbar.remember req port
      checkRoutingTable coherent next
      return result next) := by
  refine (spares_remember _ _ _).bind fun next done => ?_
  refine (spares_checkRoutingTable _ _ ?_).bind fun _ _ => avoids_ok _ _
  rw [remember_first alone done]
  exact limit

theorem expectSnoop_atMost {expectSnoopResp : Bool} {next : XBar} (alone : AtMost req xbar)
    (marked : (if expectSnoopResp then expectSnoop coherent xbar pkt else .ok xbar) = .ok next) : AtMost req next := by
  obtain ⟨_, _, routed⟩ := marked_frame marked
  unfold AtMost
  rwa [routed]

theorem spares_record (limit : 0 < coherent.maxRoutingTableSizeCheck) (alone : AtMost pkt.req.id xbar)
    (expectResponse expectSnoopResp : Bool) :
    Spares (record coherent xbar pkt port expectResponse expectSnoopResp) := by
  refine Avoids.bind ?_ fun _ marked => ?_
  · split
    · exact spares_expectSnoop _ _ _
    · exact avoids_ok _ _
  · split
    · exact spares_first _ _ _ _ limit (expectSnoop_atMost _ _ _ _ alone marked) id
    · exact avoids_ok _ _

theorem record_atMost {expectResponse expectSnoopResp : Bool} {next : XBar} (alone : AtMost pkt.req.id xbar)
    (ran : record coherent xbar pkt port expectResponse expectSnoopResp = .ok next) : AtMost pkt.req.id next := by
  obtain ⟨_, marked, ran⟩ := of_bind ran
  have kept := expectSnoop_atMost _ _ _ _ alone marked
  split at ran
  · obtain ⟨_, done, ran⟩ := of_bind ran
    obtain ⟨_, _, ran⟩ := of_bind ran
    cases ran
    intro entry member
    rw [remember_first kept done] at member
    rw [List.mem_singleton.mp member]
  · cases ran
    exact kept

theorem spares_completeClean (limit : 0 < coherent.maxRoutingTableSizeCheck) (alone : AtMost pkt.req.id xbar)
    (respondDirectly : Bool) : Spares (completeClean params coherent xbar pkt port respondDirectly) := by
  unfold completeClean
  split
  · split
    · split
      · split
        · exact nofun
        · exact (spares_route _ _ _).bind fun _ _ => avoids_ok _ _
      · exact avoids_ok _ _
    · split
      · exact avoids_ok _ _
      · let waiting := { xbar with outstandingCMO := (pkt.id, some pkt) :: xbar.outstandingCMO }
        exact spares_first coherent waiting pkt.req.id port limit alone (Completion.mk · [.deferred] none)
  · split <;> exact avoids_ok _ _

theorem clears_snoopCaches (snoop : Snoop) : Clears (snoopCaches params coherent port snoop pkt) := by
  unfold snoopCaches
  split
  · refine (spares_require _ _).own.bind fun _ _ => ?_
    split
    · exact nofun
    · exact avoids_ok _ _
  · exact avoids_ok _ _

theorem clears_deliver (random : Nat) (expectSnoopResp : Bool) :
    Clears (deliver coherent xbar now random pkt port expectSnoopResp) := by
  unfold deliver
  split
  · exact avoids_ok _ _
  split
  · exact (clears_below _ _).bind fun _ _ => avoids_ok _ _
  · exact (spares_require _ _).own.bind fun _ _ => (spares_require _ _).own.bind fun _ _ => avoids_ok _ _

theorem clears_recvTimingResp (cycles : Nat) : Clears (xbar.recvTimingResp params cycles now pkt port) := by
  refine (spares_route _ _ _).own.bind fun _ _ => (spares_tryTiming _ _).own.bind fun ⟨_, _⟩ _ => ?_
  dsimp only
  split
  · exact avoids_ok _ _
  · exact (spares_calcPacketTiming _ _ _ _).own.bind fun _ _ => (spares_succeededTiming _ _ _).own.bind fun _ _ => avoids_ok _ _

theorem clears_sendTimingResp (type : XBarType) (finish : MemCtrl → Bool → Except Abort (MemCtrl × List MemLabel)) :
    Clears (xbar.sendTimingResp params type now port finish) := by
  unfold XBar.sendTimingResp
  split
  · exact nofun
  · exact (clears_recvTimingResp _ _ _ _ _ _).bind fun _ _ => (clears_below _ _).bind fun _ _ => avoids_ok _ _

theorem clears_snoopResp : Clears (recvTimingSnoopResp params xbar now pkt port) := by
  unfold recvTimingSnoopResp
  split
  · split <;> exact nofun
  · refine (spares_route _ _ _).own.bind fun _ _ => (spares_tryTiming _ _).own.bind fun ⟨_, _⟩ _ => ?_
    dsimp only
    split
    · exact avoids_ok _ _
    · exact (spares_require _ _).own.bind fun _ _ => (spares_calcPacketTiming _ _ _ _).own.bind fun _ _ =>
        (spares_require _ _).own.bind fun _ _ => (spares_succeededTiming _ _ _).own.bind fun _ _ => avoids_ok _ _

theorem clears_noncoherent (random : Nat) : Clears (NoncoherentXBar.recvTimingReq params xbar now random pkt port) := by
  refine (spares_require _ _).own.bind fun _ _ => (spares_findPort _ _).own.bind fun _ _ =>
    (spares_tryTiming _ _).own.bind fun ⟨_, _⟩ _ => ?_
  dsimp only
  split
  · exact avoids_ok _ _
  refine (spares_calcPacketTiming _ _ _ _).own.bind fun _ _ => (clears_below _ _).bind fun ⟨_, _, _⟩ _ => ?_
  split
  · exact (spares_failedTiming _ _ _ _).own.bind fun _ _ => avoids_ok _ _
  · refine Avoids.bind (Spares.own ?_) fun _ _ => (spares_succeededTiming _ _ _).own.bind fun _ _ => avoids_ok _ _
    split
    · exact spares_remember _ _ _
    · exact avoids_ok _ _

theorem clears_coherent (limit : 0 < coherent.maxRoutingTableSizeCheck) (empty : xbar.routeTo = []) (random : Nat)
    (snoop : Snoop) : Clears (CoherentXBar.recvTimingReq params coherent xbar now random pkt port snoop) := by
  refine (spares_require _ _).own.bind fun _ _ => (spares_findPort _ _).own.bind fun _ _ => ?_
  refine Avoids.bind (Spares.own ?_) fun ⟨_, _⟩ _ => ?_
  · split
    · exact avoids_ok _ _
    · exact spares_tryTiming _ _
  dsimp only
  split
  · exact avoids_ok _ _
  refine (spares_calcPacketTiming _ _ _ _).own.bind fun _ _ => (clears_snoopCaches _ _ _ _ _).bind fun snooped _ =>
    (clears_deliver _ _ _ _ _ _ _).bind fun delivery delivering => ?_
  have alone : AtMost snooped.req.id delivery.xbar := by
    intro entry member
    rw [(deliver_ok delivering).routed, empty] at member
    cases member
  split
  · exact (spares_require _ _).own.bind fun _ _ => (spares_failedTiming _ _ _ _).own.bind fun _ _ => avoids_ok _ _
  refine Avoids.bind (Spares.own ?_) fun ⟨recorded, _, _⟩ recording => ?_
  · split
    · exact avoids_ok _ _
    · exact (spares_record _ _ _ _ limit alone _ _).bind fun _ _ => (spares_succeededTiming _ _ _).bind fun _ _ => avoids_ok _ _
  have lone : AtMost snooped.req.id recorded := by
    have recording := own_eq_ok recording
    split at recording
    · cases recording
      exact alone
    · obtain ⟨_, wrote, rest⟩ := of_bind recording
      obtain ⟨_, _, rest⟩ := of_bind rest
      cases rest
      exact record_atMost _ _ _ _ alone wrote
  exact (spares_completeClean _ _ _ _ _ limit lone _).own.bind fun _ _ => (spares_respond _).own.bind fun _ _ => avoids_ok _ _

theorem clears_step (type : XBarType) (event : XBarEvent)
    (limit : ∀ coherent, type = .coherent coherent → 0 < coherent.maxRoutingTableSizeCheck)
    (empty : ∀ now random port pkt snoop, event = .recvTimingReq now random port pkt snoop → xbar.routeTo = []) :
    Clears (XBar.step params type xbar event) := by
  cases event with
  | recvTimingReq =>
    refine Avoids.bind ?_ fun _ _ => avoids_ok _ _
    cases type with
    | noncoherent => exact clears_noncoherent _ _ _ _ _ _
    | coherent coherent => exact clears_coherent _ _ _ _ _ _ (limit coherent rfl) (empty _ _ _ _ _ rfl) _ _
  | recvTimingSnoopResp => exact (clears_snoopResp _ _ _ _ _).bind fun _ _ => avoids_ok _ _
  | dequeue | recvRespRetry =>
    simp only [XBar.step]
    exact clears_sendTimingResp _ _ _ _ _ _
  | release =>
    refine (clears_below _ _).bind fun _ _ => Avoids.bind (Spares.own ?_) fun _ _ => avoids_ok _ _
    split
    · exact (spares_recvRetry _).bind fun _ _ => avoids_ok _ _
    · exact avoids_ok _ _
  | reqLayerRelease | respLayerRelease => exact (spares_releaseLayer _).own.bind fun _ _ => avoids_ok _ _
  | reqLayerReturned | respLayerReturned => exact (spares_retrySent _ _ _).own.bind fun _ _ => avoids_ok _ _

end Crossbar

/-- The table is what is awaited, each request once and with the port it arrived on. -/
structure Accounted (xbar : XBar) (labels : List XBarLabel) : Prop where
  exact : xbar.routeTo = (awaiting labels).map Awaited.entry
  once : ((awaiting labels).map Awaited.req).Nodup
  matched : Matched labels
  returned : ∀ before port pkt after, labels = before ++ .responded port pkt :: after →
    ∃ answer, ⟨pkt.req.id, port, answer⟩ ∈ awaiting before
  covered : ∀ awaited ∈ awaiting labels, awaited.answer = .downstream →
    Queued xbar awaited.req ∨ awaited.req ∈ swallowed labels

def Sequential (params : XBarParams) (type : XBarType) (memories : PortID → MemCtrl) (events : List XBarEvent) : Prop :=
  ∀ before now random port pkt snoop after, events = before ++ .recvTimingReq now random port pkt snoop :: after →
    ∀ reached made, run (XBar.step params type) { memories } before = .ok (reached, made) → Quiet reached made

theorem Returned.split {before after : List XBarLabel} {port : PortID} {pkt : Packet}
    (returned : Returned [] (before ++ .responded port pkt :: after)) :
    ∃ answer, ⟨pkt.req.id, port, answer⟩ ∈ awaiting before :=
  ((returned_append [] before _).mp returned).2.1

/-- The accounts of the routing table over every run, and the size check over runs of
sequential accesses. -/
theorem routing_table {params : XBarParams} {type : XBarType} {memories : PortID → MemCtrl} {events : List XBarEvent}
    (limit : ∀ coherent, type = .coherent coherent → 0 < coherent.maxRoutingTableSizeCheck) :
    (∀ final labels, run (XBar.step params type) { memories } events = .ok (final, labels) →
      Accounted final labels ∧ (Quiet final labels → final.routeTo = [])) ∧
    (Sequential params type memories events →
      run (XBar.step params type) { memories } events ≠ .error (.crossbar tableExceeded)) := by
  refine ⟨fun final labels ran => ?_, fun sequential failed => ?_⟩
  · obtain ⟨booked, returned, matched⟩ := run_keeps ran
    refine ⟨⟨booked.routed, booked.once, matched, ?_, booked.covered⟩, booked.empty⟩
    rintro before port pkt after rfl
    exact returned.split
  · obtain ⟨before, event, after, middle, made, rfl, ran, stopped⟩ := run_eq_error failed
    refine clears_step params middle type event limit ?_ stopped
    rintro now random port pkt snoop rfl
    exact (run_keeps ran).1.empty (sequential before now random port pkt snoop after rfl middle made ran)

def busParams : XBarParams where
  period := 500
  frontendLatency := 3
  forwardLatency := 4
  responseLatency := 2
  headerLatency := 1
  width := 16
  us := 1000000
  cpuSidePorts := 2
  portMap := fun _ _ => some 0

def systemBus : CoherentParams where
  bypassCaches := false
  pointOfCoherency := true
  pointOfUnification := true
  maxOutstandingSnoopCheck := 512
  maxRoutingTableSizeCheck := 512

def readThenAnswer : List XBarEvent := [.recvTimingReq 0 0 0 (firstRead 0) {}, .dequeue 3500 0]

theorem readThenAnswer_sequential : Sequential busParams (.coherent systemBus) (fun _ => idleMemory) readThenAnswer := by
  intro before now random port pkt snoop after split reached made ran
  cases before with
  | nil =>
    cases ran
    exact ⟨fun _ => rfl, fun _ member => absurd member List.not_mem_nil, rfl⟩
  | cons _ rest =>
    -- the second event is the answer, and there is no third
    simp only [readThenAnswer, List.cons_append, List.cons.injEq] at split
    cases rest with
    | nil => cases split.2
    | cons => simp at split

theorem read_accounted : ∃ final labels,
    run (XBar.step busParams (.coherent systemBus)) { memories := fun _ => idleMemory } readThenAnswer = .ok (final, labels) ∧
      Accounted final labels ∧ final.routeTo = [] ∧
      run (XBar.step busParams (.coherent systemBus)) { memories := fun _ => idleMemory } readThenAnswer ≠
        .error (.crossbar tableExceeded) := by
  have limit : ∀ coherent, XBarType.coherent systemBus = .coherent coherent → 0 < coherent.maxRoutingTableSizeCheck := by
    rintro coherent ⟨⟩
    decide
  have accounts := @routing_table busParams _ (fun _ => idleMemory) readThenAnswer limit
  exact ⟨_, _, rfl, (accounts.1 _ _ rfl).1, rfl, accounts.2 readThenAnswer_sequential⟩

/-- The accounts as they would be if only memories answered requests. -/
structure FromMemories (xbar : XBar) (labels : List XBarLabel) : Prop where
  exact : xbar.routeTo = ((awaiting labels).filter (·.answer = .downstream)).map Awaited.entry
  empty : (∀ port, (xbar.memories port).packetQueue = []) → xbar.routeTo = []

/-- A read that a cache above promises to answer is in the table and never goes below. -/
theorem promise_not_from_memories : ∃ final labels,
    run (XBar.step busParams (.coherent systemBus)) { memories := fun _ => idleMemory }
        [.recvTimingReq 0 0 0 (firstRead 0) { cacheResponding := true }] = .ok (final, labels) ∧
      (∀ port, (final.memories port).packetQueue = []) ∧ ¬ FromMemories final labels := by
  refine ⟨_, _, rfl, fun _ => rfl, fun claimed => ?_⟩
  cases claimed.empty fun _ => rfl

end ImcGem5.Mem.Proofs.Routing
