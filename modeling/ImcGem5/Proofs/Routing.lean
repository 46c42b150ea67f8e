import ImcGem5.Mem.Crossbar
import ImcGem5.Proofs.Controller

/-! The routing table of a crossbar against the history of the system. A request that
is accepted and will be answered is awaited until a response for it is sent; what is
awaited from the memories is in their queues, unless an in-memory handler took it. -/

namespace ImcGem5.Mem.Proofs.Routing
open Lib List

structure Awaited where
  req : Nat
  port : PortID
  answer : Answer
  deriving DecidableEq, Repr

def Awaited.entry (awaited : Awaited) : Nat × PortID := (awaited.req, awaited.port)

def note (table : List Awaited) : XBarLabel → List Awaited
  | .accepted port pkt answers => answers.map (⟨pkt.req.id, port, ·⟩) ++ table
  | .responded _ pkt => table.eraseP fun awaited => awaited.req == pkt.req.id
  | _ => table

def awaiting (labels : List XBarLabel) : List Awaited := labels.foldl note []

def Returned : List Awaited → List XBarLabel → Prop
  | _, [] => True
  | table, .responded port pkt :: labels =>
    (∃ answer, ⟨pkt.req.id, port, answer⟩ ∈ table) ∧ Returned (note table (.responded port pkt)) labels
  | table, label :: labels => Returned (note table label) labels

def swallowed : List XBarLabel → List Nat :=
  List.filterMap fun
    | .memory _ (.accepted pkt) => if pkt.needsResponse && (dispatch pkt.req.flags).isSome then some pkt.req.id else none
    | _ => none

def Queued (xbar : XBar) (req : Nat) : Prop :=
  ∃ port, ∃ deferred ∈ (xbar.memories port).packetQueue, deferred.pkt.req.id = req

/-- The table lists who awaits an answer that is under way or lost. -/
structure Booked (xbar : XBar) (table : List Awaited) (lost : List Nat) : Prop where
  routed : xbar.routeTo = table.map Awaited.entry
  once : (table.map Awaited.req).Nodup
  covered : ∀ awaited ∈ table, awaited.answer = .downstream → Queued xbar awaited.req ∨ awaited.req ∈ lost

/-- A request is awaited from downstream exactly if a memory took it and it asks for a
response. -/
def Matched (labels : List XBarLabel) : Prop := ∀ req,
  (∃ port pkt answers, .accepted port pkt answers ∈ labels ∧ pkt.req.id = req ∧ .downstream ∈ answers) ↔
    ∃ port taken, .memory port (.accepted taken) ∈ labels ∧ taken.req.id = req ∧ taken.needsResponse = true

/-- A step with these labels keeps the books and returns responses to their ports. -/
structure Keeps (xbar next : XBar) (labels : List XBarLabel) : Prop where
  books : ∀ table lost, Booked xbar table lost →
    Booked next (labels.foldl note table) (lost ++ swallowed labels) ∧ Returned table labels
  matched : Matched labels

theorem Matched.append {early late : List XBarLabel} (first : Matched early) (second : Matched late) : Matched (early ++ late) := by
  intro req
  simp only [mem_append, or_and_right, exists_or]
  exact or_congr (first req) (second req)

theorem returned_append (table : List Awaited) (early late : List XBarLabel) :
    Returned table (early ++ late) ↔ Returned table early ∧ Returned (early.foldl note table) late := by
  induction early generalizing table with
  | nil => simp [Returned]
  | cons label _ ih =>
    cases label <;> simp [Returned, foldl_cons, ih, and_assoc]

theorem swallowed_append (early late : List XBarLabel) :
    swallowed (early ++ late) = swallowed early ++ swallowed late := filterMap_append

/-- What is not about the crossbar's own traffic leaves the table of awaited requests. -/
def Neutral (labels : List XBarLabel) : Prop := ∀ label ∈ labels,
  (∃ port pkt, label = .refused port pkt) ∨ ∃ port made, label = .memory port made

variable {labels responses : List XBarLabel} {port : PortID} {xbar next : XBar} {table : List Awaited} {lost : List Nat} {req random : Nat}
  {now : Tick} {pkt : Packet} {taken success expectSnoopResp : Bool} {params : XBarParams} {coherent : CoherentParams} {type : XBarType}

theorem Neutral.foldl (neutral : Neutral labels) (table : List Awaited) : labels.foldl note table = table ∧ Returned table labels := by
  induction labels generalizing table with
  | nil => exact ⟨rfl, trivial⟩
  | cons label _ ih =>
    obtain ⟨same, returned⟩ := ih (fun other member => neutral other (mem_cons_of_mem _ member)) table
    obtain ⟨port, _, rfl⟩ | ⟨port, _, rfl⟩ := neutral label mem_cons_self
    · exact ⟨same, returned⟩
    · exact ⟨same, returned⟩

theorem neutral_nil : Neutral [] := fun _ member => absurd member not_mem_nil

theorem neutral_memory (port : PortID) (made : List MemLabel) : Neutral (made.map (.memory port)) := by
  intro label member
  obtain ⟨inner, _, rfl⟩ := mem_map.mp member
  exact .inr ⟨port, inner, rfl⟩

theorem Neutral.append {early late : List XBarLabel} (first : Neutral early) (second : Neutral late) : Neutral (early ++ late) := by
  intro label member
  obtain early | late := mem_append.mp member
  · exact first label early
  · exact second label late

theorem neutral_refused (port : PortID) (pkt : Packet) : Neutral [.refused port pkt] := by
  intro label member
  exact .inl ⟨port, pkt, mem_singleton.mp member⟩

def Untaken (labels : List XBarLabel) : Prop := ∀ port taken, .memory port (.accepted taken) ∉ labels

theorem untaken_nil : Untaken [] := fun _ _ => not_mem_nil

theorem Untaken.refused (untaken : Untaken labels) (port : PortID) (pkt : Packet) : Untaken (labels ++ [.refused port pkt]) := by
  intro memSidePort taken member
  obtain inside | other := mem_concat.mp member
  · exact untaken memSidePort taken inside
  · cases other

theorem untaken_memory {made : List MemLabel} (none : ∀ pkt, .accepted pkt ∉ made) : Untaken (made.map (.memory port)) := by
  intro memSidePort taken member
  obtain ⟨_, present, same⟩ := mem_map.mp member
  cases same
  exact none taken present

theorem Neutral.matched (neutral : Neutral labels) (untaken : Untaken labels) : Matched labels := by
  intro req
  constructor
  · rintro ⟨port, _, _, member, _⟩
    obtain ⟨_, _, impossible⟩ | ⟨_, _, impossible⟩ := neutral _ member <;> cases impossible
  · rintro ⟨port, taken, member, _⟩
    exact absurd member (untaken port taken)

section

variable (routed : next.routeTo = xbar.routeTo)
include routed

theorem neutral_books (queued : ∀ req, Queued xbar req → Queued next req)
    (booked : Booked xbar table lost) : Booked next table (lost ++ swallowed labels) := by
  refine ⟨routed.trans booked.routed, booked.once, fun awaited member downstream => ?_⟩
  obtain inQueue | gone := booked.covered awaited member downstream
  · exact .inl (queued _ inQueue)
  · exact .inr (mem_append_left _ gone)

theorem keeps_neutral (queued : ∀ req, Queued xbar req → Queued next req) (neutral : Neutral labels)
    (untaken : Untaken labels) : Keeps xbar next labels := by
  refine ⟨fun table _ booked => ?_, neutral.matched untaken⟩
  obtain ⟨same, returned⟩ := neutral.foldl table
  rw [same]
  exact ⟨neutral_books routed queued booked, returned⟩

theorem keeps_layers (memories : next.memories = xbar.memories) : Keeps xbar next [] := by
  refine keeps_neutral routed (fun _ queued => ?_) neutral_nil untaken_nil
  unfold Queued
  rw [memories]
  exact queued

end

theorem lookup_eq_some (found : (table.map Awaited.entry).lookup req = some port) : ∃ answer, ⟨req, port, answer⟩ ∈ table := by
  obtain ⟨_, _, split, _⟩ := lookup_eq_some_iff.mp found
  have member : (req, port) ∈ table.map Awaited.entry := by
    rw [split]
    simp
  obtain ⟨awaited, present, same⟩ := mem_map.mp member
  obtain ⟨rfl, rfl⟩ := Prod.mk.inj same
  exact ⟨awaited.answer, present⟩

theorem lookup_eq_none (absent : (table.map Awaited.entry).lookup req = none) : req ∉ table.map Awaited.req := by
  intro present
  obtain ⟨_, member, rfl⟩ := mem_map.mp present
  have apart := lookup_eq_none_iff.mp absent _ (mem_map_of_mem member)
  simp [Awaited.entry] at apart

theorem Booked.remember {answer : Answer} (booked : Booked xbar table lost) (remembered : xbar.remember req port = .ok next)
    (expected : answer = .downstream → Queued xbar req ∨ req ∈ lost) : Booked next (⟨req, port, answer⟩ :: table) lost := by
  obtain ⟨absent, done⟩ := of_require remembered
  cases done
  rw [Option.isNone_iff_eq_none, booked.routed] at absent
  refine ⟨congrArg _ booked.routed, nodup_cons.mpr ⟨lookup_eq_none absent, booked.once⟩, ?_⟩
  intro awaited member downstream
  obtain rfl | older := mem_cons.mp member
  · exact expected downstream
  · exact booked.covered awaited older downstream

theorem Booked.forget (req : Nat) (booked : Booked xbar table lost) :
    Booked (xbar.forget req) (table.eraseP fun awaited => awaited.req == req) lost where
  routed := by
    simp only [XBar.forget, booked.routed, eraseP_map]
    rfl
  once := booked.once.sublist (eraseP_sublist.map _)
  covered := fun awaited member => booked.covered awaited (mem_of_mem_eraseP member)

theorem ne_of_mem_eraseP (once : (table.map Awaited.req).Nodup) {awaited : Awaited}
    (member : awaited ∈ table.eraseP fun other => other.req == req) : awaited.req ≠ req := by
  induction table with
  | nil => cases member
  | cons first _ ih =>
    obtain ⟨absent, apart⟩ := nodup_cons.mp once
    by_cases same : first.req = req
    · rw [eraseP_cons_of_pos (by simpa using same)] at member
      rintro rfl
      exact absent (same ▸ mem_map_of_mem member)
    · rw [eraseP_cons_of_neg (by simpa using same)] at member
      obtain rfl | later := mem_cons.mp member
      · exact same
      · exact ih apart later

theorem own_eq_ok {α : Type} {result : Except Abort α} {value : α} (ran : own result = .ok value) : result = .ok value :=
  mapError_eq_ok.mp ran

theorem below_eq_ok {α : Type} {result : Except Abort α} {value : α} (ran : below port result = .ok value) : result = .ok value :=
  mapError_eq_ok.mp ran

theorem queued_setMemory {xbar : XBar} {port : PortID} {memory : MemCtrl}
    (grown : ∀ deferred ∈ (xbar.memories port).packetQueue, deferred ∈ memory.packetQueue) {req : Nat}
    (queued : Queued xbar req) : Queued (xbar.setMemory port memory) req := by
  obtain ⟨other, deferred, member, same⟩ := queued
  refine ⟨other, deferred, ?_, same⟩
  by_cases here : other = port
  · subst here
    simpa [XBar.setMemory] using grown deferred member
  · simpa [XBar.setMemory, here] using member

structure PassedOn (xbar next : XBar) (pkt : Packet) (success : Bool) (labels : List XBarLabel) : Prop where
  routed : next.routeTo = xbar.routeTo
  neutral : Neutral labels
  queued : ∀ req, Queued xbar req → Queued next req
  expected : success = true → pkt.needsResponse = true → Queued next pkt.req.id ∨ pkt.req.id ∈ swallowed labels
  quiet : pkt.cacheResponding = false
  taken : ∀ inner, (∃ port, .memory port (.accepted inner) ∈ labels) ↔ success = true ∧ inner = pkt

theorem recvTimingReq_quiet {ctrl next : MemCtrl}
    {labels : List MemLabel} (ran : ctrl.recvTimingReq now random pkt = .ok (next, taken, labels)) :
    pkt.cacheResponding = false :=
  (of_panicIf ran).1

theorem passedOn {memory : MemCtrl} {made : List MemLabel}
    (received : (xbar.memories port).recvTimingReq now random pkt = .ok (memory, success, made)) :
    PassedOn xbar (xbar.setMemory port memory) pkt success (made.map (.memory port)) := by
  refine ⟨rfl, neutral_memory port made, ?_, ?_, recvTimingReq_quiet received, fun inner => ?_⟩
  · refine fun _ => queued_setMemory fun _ member => ?_
    cases recvTimingReq_cases received with
    | refused _ _ queue => rwa [queue]
    | accepted _ _ processed =>
      cases processed with
      | inMemory _ _ queue => rwa [queue]
      | ordinary _ _ _ queue =>
        rw [queue]
        split
        · exact (emplace_perm _ _).mem_iff.mpr (mem_cons_of_mem _ member)
        · exact member
  · intro succeeded needs
    cases recvTimingReq_cases received with
    | refused => cases succeeded
    | accepted _ _ processed =>
      cases processed with
      | inMemory dispatched _ _ made =>
        refine .inr ?_
        subst made
        simp [swallowed, needs, dispatched]
      | @ordinary tick result effects _ _ accessed queue _ =>
        refine .inl ⟨port, ⟨tick, result⟩, ?_, (access_response accessed).1⟩
        rw [if_pos needs] at queue
        have inside := (emplace_perm ⟨tick, result⟩ (xbar.memories port).packetQueue).mem_iff.mpr mem_cons_self
        simpa [XBar.setMemory, queue] using inside
  · have there : (∃ other, XBarLabel.memory other (.accepted inner) ∈ made.map (.memory port)) ↔ .accepted inner ∈ made := by
      simp
    rw [there]
    cases recvTimingReq_cases received with
    | refused => simp
    | accepted _ _ processed =>
      cases processed with
      | inMemory _ _ _ made => simp [made]
      | ordinary _ _ _ _ made => simp [made]

theorem PassedOn.untaken (passed : PassedOn xbar next pkt success labels) (failed : success = false) : Untaken labels := by
  intro port inner member
  obtain ⟨succeeded, _⟩ := (passed.taken inner).mp ⟨port, member⟩
  rw [failed] at succeeded
  cases succeeded

theorem PassedOn.expects (passed : PassedOn xbar next pkt success labels) (succeeded : success = true) :
    (pkt.needsResponse && !pkt.cacheResponding) = true ↔
      ∃ port taken, .memory port (.accepted taken) ∈ labels ∧ taken.needsResponse = true := by
  rw [passed.quiet, Bool.not_false, Bool.and_true]
  constructor
  · intro needs
    obtain ⟨port, member⟩ := (passed.taken pkt).mpr ⟨succeeded, rfl⟩
    exact ⟨port, pkt, member, needs⟩
  · rintro ⟨port, taken, member, needs⟩
    rwa [((passed.taken taken).mp ⟨port, member⟩).2] at needs

theorem calcPacketTiming_ok {delay : Tick} {timed : Packet} (ran : params.calcPacketTiming now pkt delay = .ok timed) :
    ∃ headerDelay payloadDelay, timed = { pkt with headerDelay, payloadDelay } := by
  obtain ⟨_, ran⟩ := of_panicIf ran
  cases ran
  exact ⟨_, _, rfl⟩

theorem Booked.setReqLayer (booked : Booked xbar table lost)
    (port : PortID) (layer : Layer PortID) : Booked (xbar.setReqLayer port layer) table lost :=
  ⟨booked.routed, booked.once, booked.covered⟩

theorem PassedOn.booked (passed : PassedOn xbar next pkt success labels) (booked : Booked xbar table lost) :
    Booked next table (lost ++ swallowed labels) := by
  exact neutral_books passed.routed passed.queued booked

theorem keeps_accepted {answers : List Answer} (neutral : Neutral labels) (kept : ∀ table lost, Booked xbar table lost →
      Booked next (responses.foldl note (answers.map (⟨pkt.req.id, port, ·⟩) ++ table)) (lost ++ swallowed labels) ∧
      Returned (answers.map (⟨pkt.req.id, port, ·⟩) ++ table) responses)
    (same : ∀ memSidePort taken, .memory memSidePort (.accepted taken) ∈ labels → taken.req.id = pkt.req.id)
    (expected : .downstream ∈ answers ↔
      ∃ memSidePort taken, .memory memSidePort (.accepted taken) ∈ labels ∧ taken.needsResponse = true)
    (answered : ∀ label ∈ responses, ∃ issuer turned, label = .responded issuer turned) :
    Keeps xbar next (labels ++ .accepted port pkt answers :: responses) := by
  have unswallowed : swallowed responses = [] := by
    refine filterMap_eq_nil_iff.mpr fun label member => ?_
    obtain ⟨issuer, turned, rfl⟩ := answered label member
    rfl
  have lostSame : swallowed (labels ++ .accepted port pkt answers :: responses) = swallowed labels := by
    rw [swallowed_append, show swallowed (.accepted port pkt answers :: responses) = swallowed responses from rfl,
      unswallowed, append_nil]
  refine ⟨fun table lost booked => ?_, fun req => ⟨?_, ?_⟩⟩
  · obtain ⟨unchanged, returned⟩ := neutral.foldl table
    obtain ⟨nextBooked, nextReturned⟩ := kept table lost booked
    refine ⟨?_, (returned_append _ _ _).mpr ⟨returned, ?_⟩⟩
    · rw [foldl_append, unchanged, lostSame]
      exact nextBooked
    · rw [unchanged]
      exact nextReturned
  · rintro ⟨_, _, _, member, rfl, downstream⟩
    obtain inside | rest := mem_append.mp member
    · obtain ⟨_, _, impossible⟩ | ⟨_, _, impossible⟩ := neutral _ inside <;> cases impossible
    · obtain this | later := mem_cons.mp rest
      · cases this
        obtain ⟨memSidePort, taken, took, needs⟩ := expected.mp downstream
        exact ⟨memSidePort, taken, mem_append_left _ took, same _ _ took, needs⟩
      · obtain ⟨_, _, impossible⟩ := answered _ later
        cases impossible
  · rintro ⟨memSidePort, taken, member, rfl, needs⟩
    have took : .memory memSidePort (.accepted taken) ∈ labels := by
      obtain inside | rest := mem_append.mp member
      · exact inside
      · obtain impossible | later := mem_cons.mp rest
        · cases impossible
        · obtain ⟨_, _, impossible⟩ := answered _ later
          cases impossible
    refine ⟨port, pkt, answers, by simp, (same _ _ took).symm, ?_⟩
    exact expected.mpr ⟨memSidePort, taken, took, needs⟩

theorem noncoherent_keeps (ran : NoncoherentXBar.recvTimingReq params xbar now random pkt port = .ok (next, success, labels)) :
    Keeps xbar next labels := by
  obtain ⟨_, _, ran⟩ := of_bind ran
  obtain ⟨memSidePort, _, ran⟩ := of_bind ran
  obtain ⟨⟨_, _⟩, _, ran⟩ := of_bind ran
  dsimp only at ran
  split at ran
  · cases ran
    exact keeps_neutral rfl (fun _ queued => queued) (neutral_refused port pkt) (untaken_nil.refused port pkt)
  obtain ⟨_, timing, ran⟩ := of_bind ran
  obtain ⟨_, _, rfl⟩ := calcPacketTiming_ok (own_eq_ok timing)
  obtain ⟨⟨_, taken, _⟩, received, ran⟩ := of_bind ran
  have passed := passedOn (below_eq_ok received)
  split at ran
  next refused =>
    obtain ⟨_, _, ran⟩ := of_bind ran
    cases ran
    have untaken := passed.untaken (by simpa using refused)
    exact keeps_neutral passed.routed passed.queued (passed.neutral.append (neutral_refused port pkt))
      (untaken.refused port pkt)
  next accepted =>
    have success : taken = true := by simpa using accepted
    obtain ⟨_, remembered, ran⟩ := of_bind ran
    obtain ⟨_, _, ran⟩ := of_bind ran
    cases ran
    have remembered := own_eq_ok remembered
    refine keeps_accepted passed.neutral (fun _ _ booked => ⟨?_, trivial⟩) ?_ ?_ (by simp)
    rotate_left
    · intro memSidePort inner member
      rw [((passed.taken inner).mp ⟨memSidePort, member⟩).2]
    · rw [← passed.expects success]
      split
      next expects => exact ⟨fun _ => expects, fun _ => mem_singleton_self _⟩
      next quiet => exact ⟨fun impossible => absurd impossible not_mem_nil, fun expects => absurd expects quiet⟩
    have booked := passed.booked booked
    split at remembered
    next expects =>
      have needs := (Bool.and_eq_true _ _).mp expects
      rw [if_pos expects]
      refine (booked.remember remembered fun _ => ?_).setReqLayer _ _
      obtain queued | gone := passed.expected success needs.1
      · exact .inl queued
      · exact .inr (mem_append_right _ gone)
    next quiet =>
      cases remembered
      rw [if_neg quiet]
      exact booked.setReqLayer _ _

open CoherentXBar

theorem snoopCaches_ok {snoop : Snoop} {snooped : Packet} (ran : snoopCaches params coherent port snoop pkt = .ok snooped) :
    snooped.req = pkt.req ∧ (pkt.cacheResponding = true → snooped.cacheResponding = true) := by
  unfold snoopCaches at ran
  split at ran
  · obtain ⟨_, _, ran⟩ := of_bind ran
    split at ran
    · cases ran
    · cases ran
      exact ⟨rfl, fun responding => by simp [responding]⟩
  · cases ran
    exact ⟨rfl, id⟩

theorem sinkPacket_expects (sunk : sinkPacket coherent pkt = true) : (pkt.needsResponse && !pkt.cacheResponding) = false := by
  simp only [sinkPacket, Bool.or_eq_true, Bool.and_eq_true, Bool.not_eq_true'] at sunk
  obtain ((⟨_, responding⟩ | ⟨_, unneeded⟩) | ⟨evicted, _⟩) | ⟨responding, _⟩ := sunk
  · simp [responding]
  · simp [unneeded]
  · simp only [Packet.isCleanEviction, Bool.or_eq_true, beq_iff_eq] at evicted
    obtain command | command := evicted
    · simp [Packet.needsResponse, command, show MemCmd.needsResponse .cleanEvict = false from rfl]
    · simp [Packet.needsResponse, command, show MemCmd.needsResponse .writebackClean = false from rfl]
  · simp [responding]

/-- An answer is expected exactly if a taker gives one. -/
structure Delivered (xbar : XBar) (pkt : Packet) (delivery : Delivery) : Prop where
  routed : delivery.xbar.routeTo = xbar.routeTo
  neutral : Neutral delivery.labels
  queued : ∀ other, Queued xbar other → Queued delivery.xbar other
  expected : delivery.success = true → delivery.expectResponse = true →
    Queued delivery.xbar pkt.req.id ∨ pkt.req.id ∈ swallowed delivery.labels
  untaken : delivery.success = false → Untaken delivery.labels
  taken : ∀ port taken, .memory port (.accepted taken) ∈ delivery.labels → taken.req.id = pkt.req.id
  expects : delivery.success = true → (delivery.expectResponse = true ↔
    ∃ port taken, .memory port (.accepted taken) ∈ delivery.labels ∧ taken.needsResponse = true)
  unpromised : pkt.cacheResponding = true → delivery.expectResponse = false

theorem deliver_ok {delivery : Delivery} (ran : deliver coherent xbar now random pkt port expectSnoopResp = .ok delivery) :
    Delivered xbar pkt delivery := by
  have nobody : ∀ port taken, XBarLabel.memory port (.accepted taken) ∈ [] → taken.req.id = pkt.req.id :=
    fun _ _ member => absurd member not_mem_nil
  unfold deliver at ran
  split at ran
  next sunk =>
    cases ran
    have unexpected := sinkPacket_expects sunk
    refine ⟨rfl, neutral_nil, fun _ queued => queued, fun _ expects => ?_, fun _ => untaken_nil, nobody, fun _ => ?_,
      fun _ => unexpected⟩
    · exact absurd expects (by simp [unexpected])
    · simp [unexpected]
  next =>
    split at ran
    · obtain ⟨⟨memory, taken, _⟩, received, ran⟩ := of_bind ran
      have passed := passedOn (below_eq_ok received)
      cases ran
      refine ⟨passed.routed, passed.neutral, passed.queued, fun success expects => ?_, passed.untaken, ?_, passed.expects, ?_⟩
      · exact passed.expected success ((Bool.and_eq_true _ _).mp expects).1
      · intro memSidePort taken member
        rw [((passed.taken taken).mp ⟨memSidePort, member⟩).2]
      · intro responding
        simp [responding]
    · obtain ⟨_, _, ran⟩ := of_bind ran
      obtain ⟨_, _, ran⟩ := of_bind ran
      cases ran
      exact ⟨rfl, neutral_nil, fun _ queued => queued, nofun, fun _ => untaken_nil, nobody, fun _ => by simp, fun _ => rfl⟩

theorem Delivered.booked {delivery : Delivery} (delivered : Delivered xbar pkt delivery) (booked : Booked xbar table lost) :
    Booked delivery.xbar table (lost ++ swallowed delivery.labels) := by
  exact neutral_books delivered.routed delivered.queued booked

theorem marked_frame {next : XBar} (marked : (if expectSnoopResp then expectSnoop coherent xbar pkt else .ok xbar) = .ok next) :
    next.outstandingCMO = xbar.outstandingCMO ∧ next.memories = xbar.memories ∧ next.routeTo = xbar.routeTo := by
  split at marked
  · obtain ⟨_, marked⟩ := of_require marked
    obtain ⟨_, marked⟩ := of_panicIf marked
    cases marked
    exact ⟨rfl, rfl, rfl⟩
  · cases marked
    exact ⟨rfl, rfl, rfl⟩

theorem Booked.record {expectResponse : Bool} (booked : Booked xbar table lost)
    (expected : expectResponse = true → Queued xbar pkt.req.id ∨ pkt.req.id ∈ lost)
    (ran : record coherent xbar pkt port expectResponse expectSnoopResp = .ok next) :
    Booked next ((answersOf expectResponse expectSnoopResp).map (⟨pkt.req.id, port, ·⟩) ++ table) lost := by
  obtain ⟨snooping, marked, ran⟩ := of_bind ran
  obtain ⟨_, memories, routed⟩ := marked_frame marked
  have queued : ∀ req, Queued xbar req → Queued snooping req := by
    intro req inside
    unfold Queued
    rw [memories]
    exact inside
  have kept : Booked snooping table lost :=
    ⟨routed.trans booked.routed, booked.once, fun awaited member downstream =>
      (booked.covered awaited member downstream).imp_left (queued _)⟩
  split at ran
  next expects =>
    obtain ⟨_, done, ran⟩ := of_bind ran
    obtain ⟨_, _, ran⟩ := of_bind ran
    cases ran
    cases expectResponse with
    | true => exact kept.remember done fun _ => (expected rfl).imp_left (queued _)
    | false =>
      rw [show expectSnoopResp = true from expects]
      exact kept.remember done nofun
  next quiet =>
    cases ran
    obtain ⟨unexpected, unpromised⟩ := Bool.or_eq_false_iff.mp (Bool.eq_false_iff.mpr quiet)
    rw [unexpected, unpromised]
    exact kept

theorem respond_ok (ran : respond (some (port, pkt)) = .ok responses) :
    ∃ turned, responses = [.responded port turned] ∧ turned.req = pkt.req := by
  obtain ⟨turned, made, ran⟩ := of_bind ran
  obtain ⟨_, made⟩ := of_require made
  obtain ⟨_, made⟩ := of_require made
  cases made
  cases ran
  exact ⟨_, rfl, rfl⟩

theorem route_ok (ran : xbar.route params req = .ok port) : xbar.routeTo.lookup req = some port := by
  unfold XBar.route at ran
  split at ran
  · cases ran
  next found =>
    obtain ⟨_, ran⟩ := of_require ran
    cases ran
    exact found

theorem direct_keeps (booked : Booked xbar table lost) (responded : respond (some (port, pkt)) = .ok responses) :
    Booked xbar (responses.foldl note (⟨pkt.req.id, port, .direct⟩ :: table)) lost ∧
      Returned (⟨pkt.req.id, port, .direct⟩ :: table) responses := by
  obtain ⟨turned, rfl, same⟩ := respond_ok responded
  refine ⟨?_, ⟨.direct, by simp [same]⟩, trivial⟩
  have erased : note (⟨pkt.req.id, port, .direct⟩ :: table) (.responded port turned) = table := by
    simp [note, same]
  rw [foldl_cons, erased]
  exact booked

theorem completeClean_keeps {respondDirectly : Bool} {completion : Completion} (booked : Booked xbar table lost)
    (ran : completeClean params coherent xbar pkt port respondDirectly = .ok completion)
    (responded : respond completion.response = .ok responses) :
    Booked completion.xbar
        (responses.foldl note (completion.answers.map (⟨pkt.req.id, port, ·⟩) ++ table)) lost ∧
      Returned (completion.answers.map (⟨pkt.req.id, port, ·⟩) ++ table) responses := by
  -- outstandingCMO is not among the books that are compared
  have kept : ∀ outstandingCMO, Booked { xbar with outstandingCMO } table lost :=
    fun _ => ⟨booked.routed, booked.once, booked.covered⟩
  unfold completeClean at ran
  split at ran
  · split at ran
    next waiting found =>
      split at ran
      · split at ran
        · cases ran
        next clean =>
          obtain ⟨_, routed, ran⟩ := of_bind ran
          cases ran
          obtain ⟨_, rfl, same⟩ := respond_ok responded
          refine ⟨?_, ?_, trivial⟩
          · have erased := (kept (xbar.outstandingCMO.eraseP fun entry => entry.1 == pkt.id)).forget clean.req.id
            simpa [note, same] using erased
          · have found := route_ok routed
            rw [show xbar.routeTo = table.map Awaited.entry from booked.routed] at found
            rw [same]
            exact lookup_eq_some found
      · cases ran
        exact direct_keeps (kept _) responded
    next =>
      split at ran
      · cases ran
        cases responded
        exact ⟨kept _, trivial⟩
      · obtain ⟨_, done, ran⟩ := of_bind ran
        obtain ⟨_, _, ran⟩ := of_bind ran
        cases ran
        cases responded
        exact ⟨(kept _).remember done nofun, trivial⟩
  · split at ran
    · cases ran
      exact direct_keeps booked responded
    · cases ran
      cases responded
      exact ⟨booked, trivial⟩

theorem completeClean_answers {respondDirectly : Bool} {completion : Completion}
    (ran : completeClean params coherent xbar pkt port respondDirectly = .ok completion) :
    Answer.downstream ∉ completion.answers := by
  unfold completeClean at ran
  split at ran
  · split at ran
    · split at ran
      · split at ran
        · cases ran
        · obtain ⟨_, _, ran⟩ := of_bind ran
          cases ran
          exact not_mem_nil
      · cases ran
        simp
    · split at ran
      · cases ran
        exact not_mem_nil
      · obtain ⟨_, _, ran⟩ := of_bind ran
        obtain ⟨_, _, ran⟩ := of_bind ran
        cases ran
        simp
  · split at ran
    · cases ran
      simp
    · cases ran
      exact not_mem_nil

theorem respond_answered {response : Option (PortID × Packet)}
    (ran : respond response = .ok responses) : ∀ label ∈ responses, ∃ issuer turned, label = .responded issuer turned := by
  cases response with
  | none =>
    cases ran
    exact fun _ member => absurd member not_mem_nil
  | some =>
    obtain ⟨turned, rfl, _⟩ := respond_ok ran
    exact fun _ member => ⟨_, _, mem_singleton.mp member⟩

theorem mem_answersOf {expectResponse : Bool} : Answer.downstream ∈ answersOf expectResponse expectSnoopResp ↔ expectResponse = true := by
  cases expectResponse <;> cases expectSnoopResp <;> decide

theorem coherent_keeps {snoop : Snoop}
    (ran : CoherentXBar.recvTimingReq params coherent xbar now random pkt port snoop = .ok (next, success, labels)) :
    Keeps xbar next labels := by
  unfold CoherentXBar.recvTimingReq at ran
  dsimp only at ran
  obtain ⟨_, flagged, ran⟩ := of_bind ran
  obtain ⟨_, _, ran⟩ := of_bind ran
  obtain ⟨⟨_, _⟩, _, ran⟩ := of_bind ran
  split at ran
  · cases ran
    exact keeps_neutral rfl (fun _ queued => queued) (neutral_refused port pkt) (untaken_nil.refused port pkt)
  obtain ⟨_, timing, ran⟩ := of_bind ran
  obtain ⟨_, _, rfl⟩ := calcPacketTiming_ok (own_eq_ok timing)
  obtain ⟨snooped, snooping, ran⟩ := of_bind ran
  obtain ⟨same, responding⟩ := snoopCaches_ok snooping
  obtain ⟨delivery, delivering, ran⟩ := of_bind ran
  have delivered := deliver_ok delivering
  split at ran
  next refused =>
    obtain ⟨_, _, ran⟩ := of_bind ran
    obtain ⟨_, _, ran⟩ := of_bind ran
    cases ran
    have untaken := delivered.untaken (by simpa using refused)
    exact keeps_neutral delivered.routed delivered.queued (delivered.neutral.append (neutral_refused port pkt))
      (untaken.refused port pkt)
  next accepted =>
    have success : delivery.success = true := by simpa using accepted
    obtain ⟨⟨recorded, _, answers⟩, recording, ran⟩ := of_bind ran
    obtain ⟨_, completed, ran⟩ := of_bind ran
    obtain ⟨_, responded, ran⟩ := of_bind ran
    cases ran
    have responded := own_eq_ok responded
    have completed := own_eq_ok completed
    have recording := own_eq_ok recording
    -- an express snoop expects nothing, and everything else is recorded
    have noted : (∀ table lost, Booked delivery.xbar table lost →
          (delivery.expectResponse = true → Queued delivery.xbar snooped.req.id ∨ snooped.req.id ∈ lost) →
          Booked recorded (answers.map (⟨snooped.req.id, port, ·⟩) ++ table) lost) ∧
        (.downstream ∈ answers ↔ delivery.expectResponse = true) := by
      split at recording
      next express =>
        cases recording
        have upstream : pkt.cacheResponding = true := by
          by_contra quiet
          rw [express, Bool.eq_false_iff.mpr quiet] at flagged
          cases flagged
        refine ⟨fun _ _ booked _ => booked, ?_⟩
        simp [delivered.unpromised (responding upstream)]
      · obtain ⟨_, wrote, rest⟩ := of_bind recording
        obtain ⟨_, _, rest⟩ := of_bind rest
        cases rest
        exact ⟨fun _ _ booked expected => booked.record expected wrote, mem_answersOf⟩
    refine keeps_accepted delivered.neutral (fun table lost booked => ?_) ?_ ?_ (respond_answered responded)
    · have booked := noted.1 _ _ (delivered.booked booked) fun expects =>
        (delivered.expected success expects).imp_right (mem_append_right _)
      obtain ⟨nextBooked, returned⟩ := completeClean_keeps booked completed responded
      rw [same, ← append_assoc, ← map_append] at nextBooked returned
      exact ⟨nextBooked.setReqLayer _ _, returned⟩
    · rw [← same]
      exact delivered.taken
    · rw [← delivered.expects success, ← noted.2, mem_append]
      exact or_iff_right (completeClean_answers completed)

theorem recvTimingResp_ok {cycles : Nat} {memSidePort : PortID}
    (ran : xbar.recvTimingResp params cycles now pkt memSidePort = .ok (next, taken, labels)) :
    next.memories = xbar.memories ∧ next.outstandingCMO = xbar.outstandingCMO ∧
      (taken = false ∧ next.routeTo = xbar.routeTo ∧ labels = [] ∨
      taken = true ∧ next.routeTo = (xbar.forget pkt.req.id).routeTo ∧ ∃ port turned, labels = [.responded port turned] ∧
        turned.req = pkt.req ∧ xbar.routeTo.lookup pkt.req.id = some port) := by
  obtain ⟨port, routed, ran⟩ := of_bind ran
  obtain ⟨⟨_, _⟩, _, ran⟩ := of_bind ran
  dsimp only at ran
  split at ran
  · cases ran
    exact ⟨rfl, rfl, .inl ⟨rfl, rfl, rfl⟩⟩
  · obtain ⟨_, timing, ran⟩ := of_bind ran
    obtain ⟨_, _, rfl⟩ := calcPacketTiming_ok (own_eq_ok timing)
    obtain ⟨_, _, ran⟩ := of_bind ran
    cases ran
    exact ⟨rfl, rfl, .inr ⟨rfl, rfl, port, _, rfl, rfl, route_ok (own_eq_ok routed)⟩⟩

def Finishes (finish : MemCtrl → Bool → Except Abort (MemCtrl × List MemLabel)) : Prop :=
  ∀ memory taken next made, finish memory taken = .ok (next, made) →
    next.packetQueue = (if taken then memory.packetQueue.tail else memory.packetQueue) ∧ ∀ pkt, .accepted pkt ∉ made

theorem dequeue_queue {memory next : MemCtrl} {now : Tick} {taken : Bool} {made : List MemLabel}
    (ran : memory.dequeue now [] taken = .ok (next, made)) :
    next.packetQueue = (if taken then memory.packetQueue.tail else memory.packetQueue) ∧ ∀ pkt, .accepted pkt ∉ made := by
  unfold MemCtrl.dequeue at ran
  split at ran
  · cases ran
  obtain ⟨⟨_, _⟩, reentered, ran⟩ := of_bind ran
  cases reentered
  dsimp only at ran
  split at ran
  next sent =>
    rw [if_pos sent]
    split at ran
    · obtain ⟨_, _, ran⟩ := of_bind ran
      cases ran
      exact ⟨rfl, by simp⟩
    · cases ran
      exact ⟨rfl, by simp⟩
  next kept =>
    rw [if_neg kept]
    cases ran
    exact ⟨rfl, by simp⟩

theorem responded_keeps {turned : Packet} {made : List XBarLabel}
    (same : turned.req.id = req) (routed : next.routeTo = (xbar.forget req).routeTo)
    (found : xbar.routeTo.lookup req = some port) (neutral : Neutral made) (untaken : Untaken made)
    (others : ∀ other, other ≠ req → Queued xbar other → Queued next other) :
    Keeps xbar next (.responded port turned :: made) := by
  refine ⟨fun table _ booked => ?_, fun other => ?_⟩
  · obtain ⟨unchanged, returned⟩ := neutral.foldl (note table (.responded port turned))
    rw [booked.routed] at found
    have erased := booked.forget req
    refine ⟨?_, same ▸ lookup_eq_some found, returned⟩
    rw [foldl_cons, unchanged, note, same]
    refine ⟨routed.trans erased.routed, erased.once, fun awaited member downstream => ?_⟩
    obtain queued | gone := erased.covered awaited member downstream
    · exact .inl (others _ (ne_of_mem_eraseP booked.once member) queued)
    · exact .inr (mem_append_left _ gone)
  · simpa using neutral.matched untaken other

theorem sendTimingResp_keeps {finish : MemCtrl → Bool → Except Abort (MemCtrl × List MemLabel)} (finishes : Finishes finish)
    (ran : xbar.sendTimingResp params type now port finish = .ok (next, labels)) : Keeps xbar next labels := by
  unfold XBar.sendTimingResp at ran
  split at ran
  · cases ran
  next deferred rest waiting =>
    obtain ⟨⟨_, _, _⟩, received, ran⟩ := of_bind ran
    obtain ⟨⟨_, made⟩, finished, ran⟩ := of_bind ran
    cases ran
    obtain ⟨queue, none⟩ := finishes _ _ _ _ (below_eq_ok finished)
    obtain ⟨memories, _, ⟨rfl, routed, rfl⟩ | ⟨rfl, routed, _, _, rfl, same, found⟩⟩ := recvTimingResp_ok received
    · refine keeps_neutral routed (fun req queued => queued_setMemory ?_ ?_) (neutral_memory port made) (untaken_memory none)
      · intro other member
        rwa [queue]
      · unfold Queued
        rw [memories]
        exact queued
    · refine responded_keeps (congrArg Request.id same) routed found (neutral_memory port made) (untaken_memory none) ?_
      rintro req apart ⟨other, waits, member, rfl⟩
      refine ⟨other, waits, ?_, rfl⟩
      by_cases here : other = port
      · subst here
        rw [if_pos rfl, memories, waiting] at queue
        rw [waiting] at member
        obtain rfl | later := mem_cons.mp member
        · exact absurd rfl apart
        · simpa [XBar.setMemory, queue] using later
      · simpa [XBar.setMemory, here, memories] using member

theorem recvTimingSnoopResp_cases
    (ran : CoherentXBar.recvTimingSnoopResp params xbar now pkt port = .ok (next, taken, labels)) :
    (∃ destPort layer, next = xbar.setRespLayer destPort layer ∧ labels = []) ∨
      ∃ destPort layer turned, xbar.routeTo.lookup pkt.req.id = some destPort ∧ turned.req = pkt.req ∧
        labels = [.responded destPort turned] ∧ next = ({ xbar with
          outstandingSnoop := xbar.outstandingSnoop.erase pkt.req.id }.forget pkt.req.id).setRespLayer destPort layer := by
  unfold CoherentXBar.recvTimingSnoopResp at ran
  split at ran
  · split at ran <;> cases ran
  · obtain ⟨destPort, routed, ran⟩ := of_bind ran
    obtain ⟨⟨_, _⟩, _, ran⟩ := of_bind ran
    dsimp only at ran
    split at ran
    · cases ran
      exact .inl ⟨_, _, rfl, rfl⟩
    · obtain ⟨_, _, ran⟩ := of_bind ran
      obtain ⟨_, timing, ran⟩ := of_bind ran
      obtain ⟨_, _, rfl⟩ := calcPacketTiming_ok (own_eq_ok timing)
      obtain ⟨_, _, ran⟩ := of_bind ran
      obtain ⟨_, _, ran⟩ := of_bind ran
      cases ran
      exact .inr ⟨destPort, _, _, route_ok (own_eq_ok routed), by rfl, rfl, rfl⟩

theorem snoopResp_keeps (ran : CoherentXBar.recvTimingSnoopResp params xbar now pkt port = .ok (next, taken, labels)) :
    Keeps xbar next labels := by
  obtain ⟨_, _, rfl, rfl⟩ | ⟨_, _, turned, found, same, rfl, rfl⟩ := recvTimingSnoopResp_cases ran
  · exact keeps_layers rfl rfl
  · exact responded_keeps (congrArg Request.id same) rfl found neutral_nil untaken_nil fun _ _ queued => queued

theorem step_keeps {event : XBarEvent} (ran : XBar.step params type xbar event = .ok (next, labels)) : Keeps xbar next labels := by
  cases event with
  | recvTimingReq =>
    obtain ⟨⟨reached, success, made⟩, received, ran⟩ := of_bind ran
    cases ran
    cases type with
    | noncoherent => exact noncoherent_keeps received
    | coherent => exact coherent_keeps received
  | recvTimingSnoopResp =>
    obtain ⟨⟨reached, success, made⟩, received, ran⟩ := of_bind ran
    cases ran
    exact snoopResp_keeps received
  | dequeue now =>
    simp only [XBar.step] at ran
    refine sendTimingResp_keeps (fun memory taken next made finished => ?_) ran
    exact @dequeue_queue { memory with dequeueEvent := none } next now taken made finished
  | recvRespRetry =>
    simp only [XBar.step] at ran
    refine sendTimingResp_keeps (fun memory taken next made finished => ?_) ran
    obtain ⟨_, finished⟩ := of_require finished
    exact dequeue_queue finished
  | release port =>
    obtain ⟨⟨memory, made⟩, released, ran⟩ := of_bind ran
    obtain ⟨layer, _, ran⟩ := of_bind ran
    cases ran
    obtain ⟨same, labels⟩ := release_cases (below_eq_ok released)
    refine keeps_neutral rfl (fun req queued => ?_) (neutral_memory port made) (untaken_memory fun _ => ?_)
    · exact @queued_setMemory xbar port memory (fun _ _ => by rwa [same.packetQueue]) req queued
    · obtain rfl | rfl := labels <;> simp
  | reqLayerRelease | respLayerRelease =>
    obtain ⟨⟨layer, _⟩, _, ran⟩ := of_bind ran
    cases ran
    exact keeps_layers rfl rfl
  | reqLayerReturned | respLayerReturned =>
    obtain ⟨layer, _, ran⟩ := of_bind ran
    cases ran
    exact keeps_layers rfl rfl

theorem run_keeps {memories : PortID → MemCtrl} {events : List XBarEvent} {final : XBar}
    (ran : run (XBar.step params type) { memories } events = .ok (final, labels)) :
    Booked final (awaiting labels) (swallowed labels) ∧ Returned [] labels ∧ Matched labels := by
  let holds := fun (reached : XBar) past => Booked reached (awaiting past) (swallowed past) ∧ Returned [] past ∧ Matched past
  have start : holds { memories } [] :=
    ⟨⟨rfl, nodup_nil, fun _ member => absurd member not_mem_nil⟩, trivial, fun _ => by simp⟩
  refine run_invariant holds ?_ start ran
  rintro _ past _ _ made ⟨booked, returned, matched⟩ taken
  have kept := step_keeps taken
  obtain ⟨nextBooked, nextReturned⟩ := kept.books _ _ booked
  refine ⟨?_, (returned_append [] past made).mpr ⟨returned, nextReturned⟩, matched.append kept.matched⟩
  rw [awaiting, foldl_append, swallowed_append]
  exact nextBooked

/-- Nothing is under way: the queues of the memories are empty, no answer of a cache and
no write of a clean is missing, and no in-memory handler took a request that asks for a
response. -/
structure Quiet (xbar : XBar) (labels : List XBarLabel) : Prop where
  queues : ∀ port, (xbar.memories port).packetQueue = []
  caches : ∀ awaited ∈ awaiting labels, awaited.answer = .downstream
  handlers : swallowed labels = []

theorem Booked.empty (booked : Booked xbar (awaiting labels) (swallowed labels)) (quiet : Quiet xbar labels) : xbar.routeTo = [] := by
  have nothing : awaiting labels = [] := by
    refine eq_nil_iff_forall_not_mem.mpr fun awaited member => ?_
    obtain ⟨port, _, inside, _⟩ | gone := booked.covered awaited member (quiet.caches awaited member)
    · rw [quiet.queues port] at inside
      cases inside
    · rw [quiet.handlers] at gone
      cases gone
  rw [booked.routed, nothing]
  rfl

end ImcGem5.Mem.Proofs.Routing
