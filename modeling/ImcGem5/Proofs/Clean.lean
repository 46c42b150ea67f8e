import ImcGem5.Proofs.RoutingTable

/-! Cache cleans at the crossbar that is their destination. A clean that no cache above
satisfies is answered as it passes; one that a cache satisfies is answered when both it
and the WriteClean of that cache have passed, in whichever order they come. -/

namespace ImcGem5.Mem.Proofs.Clean
open Lib CoherentXBar Routing List Option

abbrev Entry := XBarEvent × List XBarLabel

/-- A packet that passes the destination of a clean: the clean itself, or its write. -/
inductive Pass where
  | clean (id req : Nat) (port : PortID) (satisfied : Bool)
  | write (id : Nat)
  deriving DecidableEq, Repr

def isAccepted : XBarLabel → Bool
  | .accepted .. => true
  | _ => false

def satisfiedAbove (coherent : CoherentParams) (pkt : Packet) (snoop : Snoop) : Bool :=
  pkt.satisfied || (!coherent.bypassCaches && snoop.satisfied)

def passOf (coherent : CoherentParams) : Entry → Option Pass
  | (.recvTimingReq _ _ port pkt snoop, labels) =>
    if labels.any isAccepted && isDestination coherent pkt then
      if pkt.isClean then some (.clean pkt.id pkt.req.id port (satisfiedAbove coherent pkt snoop))
      else if pkt.cmd == .writeClean then some (.write pkt.id)
      else none
    else none
  | _ => none

def passAt (coherent : CoherentParams) (log : List Entry) (time : Nat) : Option Pass :=
  log[time]?.bind (passOf coherent)

def responseTo (req : Nat) : XBarLabel → Option PortID
  | .responded port pkt => if pkt.req.id = req then some port else none
  | _ => none

def responsesTo (req : Nat) (labels : List XBarLabel) : List PortID := labels.filterMap (responseTo req)

def answersTo (req : Nat) (log : List Entry) : List (Nat × PortID) :=
  log.zipIdx.flatMap fun entry => (responsesTo req entry.1.2).map (entry.2, ·)

theorem answersTo_snoc (req : Nat) (past : List Entry) (entry : Entry) :
    answersTo req (past ++ [entry]) = answersTo req past ++ (responsesTo req entry.2).map (past.length, ·) := by
  simp [answersTo, zipIdx_append]

variable {coherent : CoherentParams} {time key random req : Nat} {pass : Pass} {xbar next : XBar} {port : PortID} {now : Tick}
  {pkt : Packet} {params : XBarParams} {expectSnoopResp : Bool} {labels : List XBarLabel}

theorem passAt_snoc_old {past : List Entry} {entry : Entry}
    (passed : passAt coherent past time = some pass) : passAt coherent (past ++ [entry]) time = some pass := by
  obtain ⟨_, found, _⟩ := bind_eq_some_iff.mp passed
  have inside := (List.getElem?_eq_some_iff.mp found).1
  unfold passAt at passed ⊢
  rwa [getElem?_append_left inside]

theorem passAt_snoc_new (coherent : CoherentParams) (past : List Entry) (entry : Entry) :
    passAt coherent (past ++ [entry]) past.length = passOf coherent entry := by
  simp [passAt]

theorem passAt_snoc {past : List Entry} {entry : Entry} (passed : passAt coherent (past ++ [entry]) time = some pass) :
    passAt coherent past time = some pass ∨ time = past.length ∧ passOf coherent entry = some pass := by
  obtain ⟨found, stored, same⟩ := bind_eq_some_iff.mp passed
  obtain earlier | later := Nat.lt_or_ge time past.length
  · rw [getElem?_append_left earlier] at stored
    exact .inl (bind_eq_some_iff.mpr ⟨found, stored, same⟩)
  · have inside := (List.getElem?_eq_some_iff.mp stored).1
    have here : time = past.length := by
      simp only [length_append, length_singleton] at inside
      omega
    subst here
    rw [passAt_snoc_new] at passed
    exact .inr ⟨rfl, passed⟩

variable {log : List Entry}

theorem passAt_lt (passed : passAt coherent log time = some pass) : time < log.length := by
  obtain ⟨_, found, _⟩ := bind_eq_some_iff.mp passed
  exact (List.getElem?_eq_some_iff.mp found).1

/-- What callers promise of cleans: no two share an identity or a request, and for each
satisfied one there is one write of its identity, for others there is none. -/
structure Paired (coherent : CoherentParams) (log : List Entry) : Prop where
  cleans : ∀ {early late id other req request port issuer satisfied dirty},
    passAt coherent log early = some (.clean id req port satisfied) →
    passAt coherent log late = some (.clean other request issuer dirty) → id = other ∨ req = request → early = late
  writes : ∀ {early late id}, passAt coherent log early = some (.write id) →
    passAt coherent log late = some (.write id) → early = late
  unwritten : ∀ {early late id req port}, passAt coherent log early = some (.clean id req port false) →
    passAt coherent log late ≠ some (.write id)

/-- The events of such a run. The request of a clean travels in cleans alone, and caches
do not respond to a clean that they are shown. -/
def Conforms (coherent : CoherentParams) (cleans : Nat → Prop) : XBarEvent → Prop
  | .recvTimingReq _ _ _ pkt snoop => if pkt.isClean then pkt.cmd.isRequest = true ∧ cleans pkt.req.id ∧
      isDestination coherent pkt = true ∧ pkt.cacheResponding = false ∧ snoop.cacheResponding = false
    else ¬ cleans pkt.req.id
  | .recvTimingSnoopResp _ _ pkt => ¬ cleans pkt.req.id
  | _ => True

def heldFor {β : Type} (table : List (Nat × β)) (key : Nat) : List (Nat × β) := table.filter fun entry => entry.1 == key

variable {β : Type}

theorem heldFor_cons_self (table : List (Nat × β)) (key : Nat) (value : β) :
    heldFor ((key, value) :: table) key = (key, value) :: heldFor table key := by
  simp [heldFor]

theorem heldFor_cons_ne (table : List (Nat × β)) {other : Nat} (value : β) (apart : other ≠ key) :
    heldFor ((other, value) :: table) key = heldFor table key := by
  simp [heldFor, apart]

theorem heldFor_erase_self (table : List (Nat × β)) (key : Nat) :
    heldFor (table.eraseP fun entry => entry.1 == key) key = (heldFor table key).tail := by
  induction table with
  | nil => rfl
  | cons entry _ ih =>
    obtain ⟨stored, _⟩ := entry
    by_cases same : stored = key
    · subst same
      simp [heldFor]
    · rw [eraseP_cons_of_neg (by simpa using same), heldFor_cons_ne _ _ same, heldFor_cons_ne _ _ same, ih]

theorem heldFor_erase_ne (table : List (Nat × β)) {other : Nat} (apart : other ≠ key) :
    heldFor (table.eraseP fun entry => entry.1 == other) key = heldFor table key := by
  induction table with
  | nil => rfl
  | cons entry _ ih =>
    obtain ⟨stored, _⟩ := entry
    by_cases same : stored = other
    · subst same
      rw [eraseP_cons_of_pos (by simp), heldFor_cons_ne _ _ apart]
    · rw [eraseP_cons_of_neg (by simpa using same)]
      by_cases here : stored = key
      · subst here
        rw [heldFor_cons_self, heldFor_cons_self, ih]
      · rw [heldFor_cons_ne _ _ here, heldFor_cons_ne _ _ here, ih]

theorem lookup_heldFor (table : List (Nat × β)) (key : Nat) : table.lookup key = (heldFor table key).head?.map Prod.snd := by
  induction table with
  | nil => rfl
  | cons entry _ ih =>
    obtain ⟨stored, _⟩ := entry
    by_cases same : stored = key
    · subst same
      simp [heldFor]
    · have apart : (key == stored) = false := beq_eq_false_iff_ne.mpr (Ne.symm same)
      simp [heldFor_cons_ne _ _ same, ← ih, lookup_cons, apart]

variable {table : List (Nat × β)}

theorem heldFor_eq_nil : heldFor table key = [] ↔ ∀ entry ∈ table, entry.1 ≠ key := by
  simp [heldFor]

theorem queued_of_passedOn {memory : MemCtrl} {success : Bool} {made : List MemLabel}
    (received : (xbar.memories port).recvTimingReq now random pkt = .ok (memory, success, made)) :
    ∀ req, pkt.req.id ≠ req → Queued (xbar.setMemory port memory) req → Queued xbar req := by
  intro req other ⟨place, deferred, member, same⟩
  refine ⟨place, deferred, ?_, same⟩
  by_cases here : place = port
  · subst here
    simp only [XBar.setMemory, Function.update_self] at member
    cases recvTimingReq_cases received with
    | refused _ _ queue => rwa [queue] at member
    | accepted _ _ processed =>
      cases processed with
      | inMemory _ _ queue => rwa [queue] at member
      | ordinary _ _ accessed queue =>
        rw [queue] at member
        split at member
        · obtain rfl | old := mem_cons.mp ((emplace_perm _ _).mem_iff.mp member)
          · exact absurd ((access_response accessed).1.symm.trans same) other
          · exact old
        · exact member
  · simpa [XBar.setMemory, here] using member

theorem queued_of_refused {memory : MemCtrl}
    {made : List MemLabel} (received : (xbar.memories port).recvTimingReq now random pkt = .ok (memory, false, made)) :
    ∀ req, Queued (xbar.setMemory port memory) req → Queued xbar req := by
  intro req ⟨place, deferred, member, same⟩
  refine ⟨place, deferred, ?_, same⟩
  by_cases here : place = port
  · subst here
    cases recvTimingReq_cases received with
    | refused _ _ queue => simpa [XBar.setMemory, queue] using member
  · simpa [XBar.setMemory, here] using member

theorem clean_command {cmd : MemCmd} (clean : cmd.isClean = true) (request : cmd.isRequest = true) :
    cmd.needsResponse = true ∧ cmd.isWrite = false ∧ cmd.isRead = false ∧ cmd ≠ .writeClean ∧ cmd ≠ .cleanEvict ∧
      cmd ≠ .writebackClean := by
  cases cmd <;> first | (exact absurd clean (by decide)) | (exact absurd request (by decide)) | simp [MemCmd.needsResponse,
    MemCmd.isWrite, MemCmd.isRead, MemCmd.testCmdAttrib, MemCmd.commandInfo]

def takesPart (coherent : CoherentParams) (pkt : Packet) : Bool :=
  ((pkt.isClean && pkt.satisfied) || pkt.cmd == .writeClean) && isDestination coherent pkt

inductive Completed (coherent : CoherentParams) (xbar : XBar) (pkt : Packet) (port : PortID) (respondDirectly : Bool) :
    XBar → List XBarLabel → Prop
  | other (apart : takesPart coherent pkt = false) (quiet : respondDirectly = false) :
      Completed coherent xbar pkt port respondDirectly xbar []
  | direct {turned : Packet} (apart : takesPart coherent pkt = false) (directly : respondDirectly = true)
      (same : turned.req = pkt.req) :
      Completed coherent xbar pkt port respondDirectly xbar [.responded port turned]
  | firstWrite (part : takesPart coherent pkt = true) (write : pkt.isWrite = true) (absent : xbar.outstandingCMO.lookup pkt.id = none) :
      Completed coherent xbar pkt port respondDirectly
        { xbar with outstandingCMO := (pkt.id, none) :: xbar.outstandingCMO } []
  | firstClean (part : takesPart coherent pkt = true) (clean : pkt.isWrite = false)
      (absent : xbar.outstandingCMO.lookup pkt.id = none) (unrouted : xbar.routeTo.lookup pkt.req.id = none) :
      Completed coherent xbar pkt port respondDirectly { xbar with
        outstandingCMO := (pkt.id, some pkt) :: xbar.outstandingCMO
        routeTo := (pkt.req.id, port) :: xbar.routeTo } []
  | lastWrite {clean turned : Packet} {issuer : PortID} (part : takesPart coherent pkt = true)
      (write : pkt.isWrite = true) (found : xbar.outstandingCMO.lookup pkt.id = some (some clean))
      (routed : xbar.routeTo.lookup clean.req.id = some issuer) (same : turned.req = clean.req) :
      Completed coherent xbar pkt port respondDirectly { xbar with
        outstandingCMO := xbar.outstandingCMO.eraseP fun entry => entry.1 == pkt.id
        routeTo := xbar.routeTo.eraseP fun entry => entry.1 == clean.req.id } [.responded issuer turned]
  | lastClean {waiting : Option Packet} {turned : Packet} (part : takesPart coherent pkt = true)
      (clean : pkt.isWrite = false) (found : xbar.outstandingCMO.lookup pkt.id = some waiting) (same : turned.req = pkt.req) :
      Completed coherent xbar pkt port respondDirectly
        { xbar with outstandingCMO := xbar.outstandingCMO.eraseP fun entry => entry.1 == pkt.id }
        [.responded port turned]

theorem completeClean_cases {respondDirectly : Bool} {completion : Completion} {responses : List XBarLabel}
    (ran : completeClean params coherent xbar pkt port respondDirectly = .ok completion)
    (responded : respond completion.response = .ok responses) :
    Completed coherent xbar pkt port respondDirectly completion.xbar responses := by
  unfold completeClean at ran
  split at ran
  next part =>
    split at ran
    next waiting found =>
      split at ran
      next write =>
        split at ran
        · cases ran
        next clean =>
          obtain ⟨_, routed, ran⟩ := of_bind ran
          cases ran
          obtain ⟨turned, rfl, same⟩ := respond_ok responded
          exact .lastWrite part write found (route_ok routed) same
      next clean =>
        cases ran
        obtain ⟨turned, rfl, same⟩ := respond_ok responded
        exact .lastClean part (Bool.eq_false_iff.mpr clean) found same
    next absent =>
      split at ran
      next write =>
        cases ran
        cases responded
        exact .firstWrite part write absent
      next clean =>
        obtain ⟨_, done, ran⟩ := of_bind ran
        obtain ⟨_, _, ran⟩ := of_bind ran
        cases ran
        cases responded
        obtain ⟨unrouted, done⟩ := of_require done
        cases done
        exact .firstClean part (Bool.eq_false_iff.mpr clean) absent (isNone_iff_eq_none.mp unrouted)
  next apart =>
    have apart := Bool.eq_false_iff.mpr apart
    split at ran
    next directly =>
      cases ran
      obtain ⟨turned, rfl, same⟩ := respond_ok responded
      exact .direct apart directly same
    next quiet =>
      cases ran
      cases responded
      exact .other apart (Bool.eq_false_iff.mpr quiet)

variable {snoop : Snoop} {snooped : Packet}

theorem snoopCaches_keeps {memSidePort : PortID} (ran : snoopCaches params coherent memSidePort snoop pkt = .ok snooped) :
    snooped.id = pkt.id ∧ snooped.cmd = pkt.cmd ∧
      (pkt.cmd ≠ .writeClean → snooped.satisfied = satisfiedAbove coherent pkt snoop) ∧
      (pkt.cacheResponding = false → snoop.cacheResponding = false → snooped.cacheResponding = false) := by
  unfold snoopCaches at ran
  split at ran
  next looked =>
    obtain ⟨_, _, ran⟩ := of_bind ran
    split at ran
    · cases ran
    · cases ran
      refine ⟨rfl, rfl, fun _ => ?_, fun quiet silent => by simp [quiet, silent]⟩
      simp only [Bool.and_eq_true] at looked
      simp [satisfiedAbove, looked.1]
  next passed =>
    cases ran
    refine ⟨rfl, rfl, fun ordinary => ?_, fun quiet _ => quiet⟩
    have bypassed : coherent.bypassCaches = true := by simpa [ordinary] using passed
    simp [satisfiedAbove, bypassed]

theorem queued_of_memories (same : next.memories = xbar.memories) (queued : Queued next req) : Queued xbar req := by
  unfold Queued at queued
  rwa [same] at queued

theorem deliver_clean {delivery : Delivery} (clean : pkt.isClean = true)
    (request : pkt.cmd.isRequest = true) (destination : isDestination coherent pkt = true)
    (quiet : pkt.cacheResponding = false) (ran : deliver coherent xbar now random pkt port expectSnoopResp = .ok delivery) :
    delivery.xbar = xbar ∧ delivery.expectResponse = false ∧ delivery.respondDirectly = true := by
  obtain ⟨needs, _, _, _, notEvict, notWriteback⟩ := clean_command clean request
  have unsunk : sinkPacket coherent pkt = false := by
    simp [sinkPacket, quiet, Packet.needsResponse, needs, Packet.isCleanEviction, notEvict, notWriteback]
  have turned : forwardPacket coherent pkt = false := by
    simp [forwardPacket, clean, destination]
  unfold deliver at ran
  simp only [unsunk, turned, Bool.false_eq_true, if_false] at ran
  obtain ⟨_, _, ran⟩ := of_bind ran
  obtain ⟨_, _, ran⟩ := of_bind ran
  cases ran
  exact ⟨rfl, rfl, rfl⟩

theorem deliver_frame {delivery : Delivery} (ran : deliver coherent xbar now random pkt port expectSnoopResp = .ok delivery) :
    delivery.xbar.outstandingCMO = xbar.outstandingCMO ∧
      (∀ req, pkt.req.id ≠ req → Queued delivery.xbar req → Queued xbar req) ∧
      (delivery.success = false → ∀ req, Queued delivery.xbar req → Queued xbar req) := by
  unfold deliver at ran
  split at ran
  · cases ran
    exact ⟨rfl, fun _ _ queued => queued, fun _ _ queued => queued⟩
  · split at ran
    · obtain ⟨⟨_, _, _⟩, received, ran⟩ := of_bind ran
      cases ran
      have kept := queued_of_passedOn (below_eq_ok received)
      refine ⟨rfl, kept, fun failed => ?_⟩
      subst failed
      exact queued_of_refused (below_eq_ok received)
    · obtain ⟨_, _, ran⟩ := of_bind ran
      obtain ⟨_, _, ran⟩ := of_bind ran
      cases ran
      exact ⟨rfl, fun _ _ queued => queued, fun _ _ queued => queued⟩

theorem record_frame {expectResponse : Bool} (ran : record coherent xbar pkt port expectResponse expectSnoopResp = .ok next) :
    next.outstandingCMO = xbar.outstandingCMO ∧ next.memories = xbar.memories ∧
      (next.routeTo = xbar.routeTo ∨ (expectResponse || expectSnoopResp) = true ∧
        next.routeTo = (pkt.req.id, port) :: xbar.routeTo) := by
  obtain ⟨snooping, marked, ran⟩ := of_bind ran
  obtain ⟨outstanding, memories, routed⟩ := marked_frame marked
  split at ran
  next expects =>
    obtain ⟨_, done, ran⟩ := of_bind ran
    obtain ⟨_, _, ran⟩ := of_bind ran
    cases ran
    obtain ⟨_, done⟩ := of_require done
    cases done
    exact ⟨outstanding, memories, .inr ⟨expects, congrArg _ routed⟩⟩
  · cases ran
    exact ⟨outstanding, memories, .inl routed⟩

inductive Handled (coherent : CoherentParams) (xbar next : XBar) (pkt : Packet) (port : PortID) (snoop : Snoop)
    (labels : List XBarLabel) : Prop
  | refused (routed : next.routeTo = xbar.routeTo) (outstanding : next.outstandingCMO = xbar.outstandingCMO)
      (queued : ∀ req, Queued next req → Queued xbar req) (neutral : Neutral labels)
  | accepted {snooped : Packet} {recorded reached : XBar} {made responses : List XBarLabel} {answers : List Answer}
      {respondDirectly : Bool} (labelled : labels = made ++ .accepted port pkt answers :: responses)
      (neutral : Neutral made) (sameId : snooped.id = pkt.id) (sameReq : snooped.req = pkt.req)
      (sameCmd : snooped.cmd = pkt.cmd)
      (satisfied : pkt.cmd ≠ .writeClean → snooped.satisfied = satisfiedAbove coherent pkt snoop)
      (outstanding : recorded.outstandingCMO = xbar.outstandingCMO)
      (routed : recorded.routeTo = xbar.routeTo ∨ recorded.routeTo = (pkt.req.id, port) :: xbar.routeTo)
      (queued : ∀ req, pkt.req.id ≠ req → Queued recorded req → Queued xbar req)
      (turned : pkt.isClean = true → pkt.cmd.isRequest = true → isDestination coherent pkt = true →
        pkt.cacheResponding = false → snoop.cacheResponding = false →
        recorded.routeTo = xbar.routeTo ∧ recorded.memories = xbar.memories ∧ respondDirectly = true)
      (completed : Completed coherent recorded snooped port respondDirectly reached responses)
      (nextRouted : next.routeTo = reached.routeTo) (nextOutstanding : next.outstandingCMO = reached.outstandingCMO)
      (nextMemories : next.memories = reached.memories)

theorem recvTimingReq_handled {success : Bool}
    (ran : CoherentXBar.recvTimingReq params coherent xbar now random pkt port snoop = .ok (next, success, labels)) :
    Handled coherent xbar next pkt port snoop labels := by
  unfold CoherentXBar.recvTimingReq at ran
  dsimp only at ran
  obtain ⟨_, _, ran⟩ := of_bind ran
  obtain ⟨_, _, ran⟩ := of_bind ran
  obtain ⟨⟨_, _⟩, _, ran⟩ := of_bind ran
  split at ran
  · cases ran
    exact .refused rfl rfl (fun _ queued => queued) (neutral_refused port pkt)
  obtain ⟨_, timing, ran⟩ := of_bind ran
  obtain ⟨_, _, rfl⟩ := calcPacketTiming_ok (own_eq_ok timing)
  obtain ⟨snooped, snooping, ran⟩ := of_bind ran
  have sameReq := (snoopCaches_ok snooping).1
  obtain ⟨sameId, sameCmd, satisfied, quiet⟩ := snoopCaches_keeps snooping
  obtain ⟨delivery, delivering, ran⟩ := of_bind ran
  have delivered := deliver_ok delivering
  obtain ⟨outstanding, queued, unqueued⟩ := deliver_frame delivering
  rw [sameReq] at queued
  split at ran
  next refused =>
    obtain ⟨_, _, ran⟩ := of_bind ran
    obtain ⟨_, _, ran⟩ := of_bind ran
    cases ran
    have kept := unqueued (by simpa using refused)
    exact .refused delivered.routed outstanding kept (delivered.neutral.append (neutral_refused port pkt))
  next accepted =>
    obtain ⟨⟨recorded, _⟩, recording, ran⟩ := of_bind ran
    obtain ⟨_, completed, ran⟩ := of_bind ran
    obtain ⟨_, responded, ran⟩ := of_bind ran
    cases ran
    have noted : recorded.outstandingCMO = delivery.xbar.outstandingCMO ∧ recorded.memories = delivery.xbar.memories ∧
        (recorded.routeTo = delivery.xbar.routeTo ∨
          (delivery.expectResponse || (!pkt.cacheResponding && snooped.cacheResponding)) = true ∧
          recorded.routeTo = (snooped.req.id, port) :: delivery.xbar.routeTo) := by
      have recording := own_eq_ok recording
      split at recording
      · cases recording
        exact ⟨rfl, rfl, .inl rfl⟩
      · obtain ⟨_, wrote, rest⟩ := of_bind recording
        obtain ⟨_, _, rest⟩ := of_bind rest
        cases rest
        exact record_frame wrote
    obtain ⟨waiting, memories, route⟩ := noted
    rw [delivered.routed, sameReq] at route
    refine .accepted rfl delivered.neutral sameId sameReq sameCmd satisfied (waiting.trans outstanding)
      (route.imp_right And.right) (fun req other held => queued req other (queued_of_memories memories held)) ?_
      (completeClean_cases (own_eq_ok completed) (own_eq_ok responded)) rfl rfl rfl
    intro clean request destination calm silent
    have still := quiet calm silent
    have cleanly : snooped.isClean = true := by
      simpa [Packet.isClean, sameCmd] using clean
    have here : isDestination coherent snooped = true := by
      simpa [isDestination, sameReq] using destination
    obtain ⟨same, unexpected, directly⟩ := deliver_clean cleanly (sameCmd ▸ request) here still delivering
    rw [same] at memories
    refine ⟨?_, memories, directly⟩
    obtain kept | ⟨expects, _⟩ := route
    · exact kept
    · rw [unexpected, calm, still] at expects
      cases expects

theorem Neutral.unaccepted (neutral : Neutral labels) : labels.any isAccepted = false := by
  refine List.any_eq_false.mpr fun label member => ?_
  obtain ⟨_, _, rfl⟩ | ⟨_, _, rfl⟩ := neutral label member <;> simp [isAccepted]

theorem Neutral.unanswered (neutral : Neutral labels) (req : Nat) : responsesTo req labels = [] := by
  refine filterMap_eq_nil_iff.mpr fun label member => ?_
  obtain ⟨_, _, rfl⟩ | ⟨_, _, rfl⟩ := neutral label member <;> rfl

theorem responsesTo_append (req : Nat) (early late : List XBarLabel) :
    responsesTo req (early ++ late) = responsesTo req early ++ responsesTo req late := filterMap_append

theorem responsesTo_self {turned : Packet} (port : PortID) (same : turned.req.id = req) (rest : responsesTo req labels = []) :
    responsesTo req (.responded port turned :: labels) = [port] := by
  simp only [responsesTo] at rest ⊢
  simp [responseTo, same, rest]

theorem responsesTo_other {turned : Packet} (port : PortID) (other : turned.req.id ≠ req) (rest : responsesTo req labels = []) :
    responsesTo req (.responded port turned :: labels) = [] := by
  simp only [responsesTo] at rest ⊢
  simp [responseTo, other, rest]

section Pair
variable {coherent : CoherentParams} {id req : Nat} {xbar next : XBar} {reached : XBar} {entry : Entry} {key time : Nat} {pkt : Packet}
  {port : PortID} {event : XBarEvent} {labels : List XBarLabel} {now : Tick} {cleans : Nat → Prop} {params : XBarParams} {satisfied : Bool}

/-- One clean and its request among the tables: no memory holds a response for it, and
the cleans that wait are this one exactly if they carry its request. -/
structure Books (id req : Nat) (xbar : XBar) : Prop where
  unqueued : ¬ Queued xbar req
  owned : ∀ key clean, (key, some clean) ∈ xbar.outstandingCMO → (key = id ↔ clean.req.id = req)

def Concerns (id : Nat) : Pass → Prop
  | .clean other _ _ _ => other = id
  | .write other => other = id

inductive Move (coherent : CoherentParams) (id req : Nat) (xbar next : XBar) (entry : Entry) : Prop
  | apart (other : ∀ pass, passOf coherent entry = some pass → ¬ Concerns id pass)
      (outstanding : heldFor next.outstandingCMO id = heldFor xbar.outstandingCMO id)
      (routed : heldFor next.routeTo req = heldFor xbar.routeTo req) (quiet : responsesTo req entry.2 = [])
  | unsatisfied {port : PortID} (passed : passOf coherent entry = some (.clean id req port false))
      (outstanding : heldFor next.outstandingCMO id = heldFor xbar.outstandingCMO id)
      (routed : heldFor next.routeTo req = heldFor xbar.routeTo req) (answered : responsesTo req entry.2 = [port])
  | cleanFirst {port : PortID} {clean : Packet} (passed : passOf coherent entry = some (.clean id req port true))
      (absent : heldFor xbar.outstandingCMO id = []) (outstanding : heldFor next.outstandingCMO id = [(id, some clean)])
      (routed : heldFor next.routeTo req = (req, port) :: heldFor xbar.routeTo req) (quiet : responsesTo req entry.2 = [])
  | cleanLast {port : PortID} (passed : passOf coherent entry = some (.clean id req port true))
      (present : heldFor xbar.outstandingCMO id ≠ [])
      (outstanding : heldFor next.outstandingCMO id = (heldFor xbar.outstandingCMO id).tail)
      (routed : heldFor next.routeTo req = heldFor xbar.routeTo req) (answered : responsesTo req entry.2 = [port])
  | writeFirst (passed : passOf coherent entry = some (.write id)) (absent : heldFor xbar.outstandingCMO id = [])
      (outstanding : heldFor next.outstandingCMO id = [(id, none)])
      (routed : heldFor next.routeTo req = heldFor xbar.routeTo req) (quiet : responsesTo req entry.2 = [])
  | writeLast {port : PortID} (passed : passOf coherent entry = some (.write id))
      (present : heldFor xbar.outstandingCMO id ≠ [])
      (outstanding : heldFor next.outstandingCMO id = (heldFor xbar.outstandingCMO id).tail)
      (found : xbar.routeTo.lookup req = some port)
      (routed : heldFor next.routeTo req = (heldFor xbar.routeTo req).tail) (answered : responsesTo req entry.2 = [port])

theorem Books.congr (outstanding : next.outstandingCMO = reached.outstandingCMO)
    (memories : next.memories = reached.memories) (books : Books id req reached) : Books id req next :=
  ⟨fun queued => books.unqueued (queued_of_memories memories queued), outstanding ▸ books.owned⟩

theorem Move.congr {before after : XBar} (outstanding : xbar.outstandingCMO = before.outstandingCMO)
    (routed : xbar.routeTo = before.routeTo) (nextOutstanding : next.outstandingCMO = after.outstandingCMO)
    (nextRouted : next.routeTo = after.routeTo) (move : Move coherent id req before after entry) :
    Move coherent id req xbar next entry := by
  obtain ⟨_, _⟩ := xbar
  obtain ⟨_, _⟩ := next
  subst outstanding routed nextOutstanding nextRouted
  cases move with
  | apart other outstanding routed quiet => exact .apart other outstanding routed quiet
  | unsatisfied passed outstanding routed answered => exact .unsatisfied passed outstanding routed answered
  | cleanFirst passed absent outstanding routed quiet => exact .cleanFirst passed absent outstanding routed quiet
  | cleanLast passed present outstanding routed answered => exact .cleanLast passed present outstanding routed answered
  | writeFirst passed absent outstanding routed quiet => exact .writeFirst passed absent outstanding routed quiet
  | writeLast passed present outstanding found routed answered =>
    exact .writeLast passed present outstanding found routed answered

theorem heldFor_of_lookup_none (absent : table.lookup key = none) : heldFor table key = [] := by
  simpa [lookup_heldFor] using absent

theorem heldFor_of_lookup_some {value : β} (found : table.lookup key = some value) : heldFor table key ≠ [] := by
  intro nothing
  rw [lookup_heldFor, nothing] at found
  cases found

theorem mem_of_lookup {value : β} (found : table.lookup key = some value) : (key, value) ∈ table := by
  obtain ⟨_, _, rfl, _⟩ := lookup_eq_some_iff.mp found
  simp

theorem responsesTo_accepted {made responses : List XBarLabel} (neutral : Neutral made) (req : Nat) (port : PortID)
    (pkt : Packet) (answers : List Answer) :
    responsesTo req (made ++ .accepted port pkt answers :: responses) = responsesTo req responses := by
  rw [responsesTo_append, Neutral.unanswered neutral]
  rfl

theorem any_accepted (made responses : List XBarLabel) (port : PortID) (pkt : Packet) (answers : List Answer) :
    (made ++ .accepted port pkt answers :: responses).any isAccepted = true := by
  simp [isAccepted]

theorem clean_moves
    {responses : List XBarLabel} (books : Books id req xbar) (own : pkt.id = id ↔ pkt.req.id = req)
    (clean : pkt.isClean = true) (request : pkt.cmd.isRequest = true) (destination : isDestination coherent pkt = true)
    (passed : passOf coherent entry = some (.clean pkt.id pkt.req.id port (satisfiedAbove coherent pkt snoop)))
    (labelled : responsesTo req entry.2 = responsesTo req responses)
    (sameId : snooped.id = pkt.id) (sameReq : snooped.req = pkt.req) (sameCmd : snooped.cmd = pkt.cmd)
    (satisfied : snooped.satisfied = satisfiedAbove coherent pkt snoop)
    (completed : Completed coherent xbar snooped port true reached responses) :
    Books id req reached ∧ Move coherent id req xbar reached entry := by
  obtain ⟨_, unwritten, _, ordinary, _⟩ := clean_command clean request
  have unwritten : snooped.isWrite = false := by
    simpa [Packet.isWrite, sameCmd] using unwritten
  have part : takesPart coherent snooped = satisfiedAbove coherent pkt snoop := by
    have here : isDestination coherent snooped = true := by
      simpa [isDestination, sameReq] using destination
    have cleanly : snooped.isClean = true := by
      simpa [Packet.isClean, sameCmd] using clean
    simp [takesPart, here, cleanly, satisfied, sameCmd, ordinary]
  have apart : pkt.id ≠ id → ∀ pass, passOf coherent entry = some pass → ¬ Concerns id pass := by
    intro other pass found
    rw [passed] at found
    cases found
    exact other
  cases completed with
  | other _ quiet => cases quiet
  | @direct turned unpart _ same =>
    refine ⟨books, ?_⟩
    rw [part] at unpart
    rw [unpart] at passed
    have reqSame : turned.req.id = pkt.req.id := by rw [same, sameReq]
    by_cases this : pkt.id = id
    · rw [this, own.mp this] at passed
      exact .unsatisfied passed rfl rfl (labelled.trans (responsesTo_self port (reqSame.trans (own.mp this)) rfl))
    · refine .apart (apart this) rfl rfl (labelled.trans (responsesTo_other port ?_ rfl))
      rw [reqSame]
      exact fun same => this (own.mpr same)
  | firstWrite _ write | lastWrite _ write =>
    rw [unwritten] at write
    cases write
  | firstClean waits _ absent =>
    rw [part] at waits
    rw [waits] at passed
    rw [sameId] at absent
    refine ⟨⟨books.unqueued, fun key waiting member => ?_⟩, ?_⟩
    · obtain this | older := mem_cons.mp member
      · cases this
        rw [sameId, sameReq]
        exact own
      · exact books.owned key waiting older
    · simp only [sameId, sameReq]
      by_cases this : pkt.id = id
      · rw [this, own.mp this] at passed
        rw [this] at absent
        have held : heldFor ((pkt.id, some snooped) :: xbar.outstandingCMO) id = [(id, some snooped)] := by
          simp only [this, heldFor_cons_self, heldFor_of_lookup_none absent]
        refine .cleanFirst passed (heldFor_of_lookup_none absent) held ?_ labelled
        simp only [own.mp this, heldFor_cons_self]
      · refine .apart (apart this) ?_ ?_ labelled
        · simp only [heldFor_cons_ne _ _ this]
        · simp only [heldFor_cons_ne _ _ (fun same => this (own.mpr same))]
  | @lastClean waiting turned waits _ found same =>
    rw [part] at waits
    rw [waits] at passed
    rw [sameId] at found
    have reqSame : turned.req.id = pkt.req.id := by rw [same, sameReq]
    refine ⟨⟨books.unqueued, fun key waiting member => books.owned key waiting (mem_of_mem_eraseP member)⟩, ?_⟩
    simp only [sameId]
    by_cases this : pkt.id = id
    · rw [this, own.mp this] at passed
      rw [this] at found
      refine .cleanLast passed (heldFor_of_lookup_some found) ?_ rfl ?_
      · simp only [this, heldFor_erase_self]
      · exact labelled.trans (responsesTo_self port (reqSame.trans (own.mp this)) rfl)
    · refine .apart (apart this) ?_ rfl (labelled.trans (responsesTo_other port ?_ rfl))
      · simp only [heldFor_erase_ne _ this]
      · rw [reqSame]
        exact fun same => this (own.mpr same)

theorem writeClean_command : MemCmd.isWrite .writeClean = true ∧ MemCmd.isClean .writeClean = false := by decide

theorem other_moves {recorded : XBar} {respondDirectly : Bool}
    {responses : List XBarLabel} (books : Books id req xbar) (other : pkt.req.id ≠ req)
    (unclean : pkt.isClean = false) (sameId : snooped.id = pkt.id) (sameReq : snooped.req = pkt.req)
    (sameCmd : snooped.cmd = pkt.cmd) (labelled : responsesTo req entry.2 = responsesTo req responses)
    (passed : passOf coherent entry =
      if isDestination coherent pkt && pkt.cmd == .writeClean then some (.write pkt.id) else none)
    (outstanding : recorded.outstandingCMO = xbar.outstandingCMO)
    (routed : recorded.routeTo = xbar.routeTo ∨ recorded.routeTo = (pkt.req.id, port) :: xbar.routeTo)
    (queued : ∀ req, pkt.req.id ≠ req → Queued recorded req → Queued xbar req)
    (completed : Completed coherent recorded snooped port respondDirectly reached responses) :
    Books id req reached ∧ Move coherent id req xbar reached entry := by
  have unclean : snooped.isClean = false := by
    simpa [Packet.isClean, sameCmd] using unclean
  have part : takesPart coherent snooped = (isDestination coherent pkt && pkt.cmd == .writeClean) := by
    rw [takesPart, unclean, sameCmd, Bool.false_and, Bool.false_or, Bool.and_comm]
    simp [isDestination, sameReq]
  rw [← part] at passed
  have route : heldFor recorded.routeTo req = heldFor xbar.routeTo req := by
    obtain same | grown := routed
    · rw [same]
    · rw [grown, heldFor_cons_ne _ _ other]
  have kept : Books id req recorded := ⟨fun held => books.unqueued (queued req other held), outstanding ▸ books.owned⟩
  have written : takesPart coherent snooped = true → snooped.isWrite = true := by
    intro takes
    rw [part] at takes
    have command : pkt.cmd = .writeClean := by simpa using ((Bool.and_eq_true _ _).mp takes).2
    rw [Packet.isWrite, sameCmd, command]
    exact writeClean_command.1
  have nothing : takesPart coherent snooped = false → ∀ pass, passOf coherent entry = some pass → ¬ Concerns id pass := by
    intro unpart pass found
    rw [passed, unpart] at found
    cases found
  have apart : pkt.id ≠ id → ∀ pass, passOf coherent entry = some pass → ¬ Concerns id pass := by
    intro away pass found
    rw [passed] at found
    split at found
    · cases found
      exact away
    · cases found
  cases completed with
  | other unpart => exact ⟨kept, .apart (nothing unpart) (by rw [outstanding]) route labelled⟩
  | direct unpart _ same =>
    refine ⟨kept, .apart (nothing unpart) (by rw [outstanding]) route (labelled.trans (responsesTo_other port ?_ rfl))⟩
    rw [same, sameReq]
    exact other
  | firstClean takes clean | lastClean takes clean =>
    rw [written takes] at clean
    cases clean
  | firstWrite takes _ absent =>
    rw [takes, if_pos rfl] at passed
    rw [outstanding, sameId] at absent
    refine ⟨⟨kept.unqueued, fun key waiting member => ?_⟩, ?_⟩
    · obtain this | older := mem_cons.mp member
      · cases this
      · exact kept.owned key waiting older
    · simp only [sameId, outstanding]
      by_cases this : pkt.id = id
      · rw [this] at passed absent
        refine .writeFirst passed (heldFor_of_lookup_none absent) ?_ route labelled
        simp only [this, heldFor_cons_self, heldFor_of_lookup_none absent]
      · refine .apart (apart this) ?_ route labelled
        simp only [heldFor_cons_ne _ _ this]
  | @lastWrite clean turned issuer takes _ found routing same =>
    rw [takes, if_pos rfl] at passed
    have own := kept.owned _ _ (mem_of_lookup found)
    rw [sameId] at own
    rw [outstanding, sameId] at found
    refine ⟨⟨kept.unqueued, fun key waiting member => kept.owned key waiting (mem_of_mem_eraseP member)⟩, ?_⟩
    simp only [sameId, outstanding]
    have reqSame : turned.req.id = clean.req.id := by rw [same]
    by_cases this : pkt.id = id
    · rw [this] at passed found
      rw [own.mp this] at routing
      have first : xbar.routeTo.lookup req = some issuer := by
        rwa [lookup_heldFor, ← route, ← lookup_heldFor]
      refine .writeLast passed (heldFor_of_lookup_some found) ?_ first ?_ ?_
      · simp only [this, heldFor_erase_self]
      · simp only [own.mp this, heldFor_erase_self, route]
      · exact labelled.trans (responsesTo_self issuer (reqSame.trans (own.mp this)) rfl)
    · have away : clean.req.id ≠ req := fun same => this (own.mpr same)
      refine .apart (apart this) ?_ ?_ (labelled.trans (responsesTo_other issuer (reqSame ▸ away) rfl))
      · simp only [heldFor_erase_ne _ this]
      · simp only [heldFor_erase_ne _ away, route]

theorem quiet_moves (books : Books id req xbar)
    (unpassed : passOf coherent (event, labels) = none) (outstanding : next.outstandingCMO = xbar.outstandingCMO)
    (queued : Queued next req → Queued xbar req) (routed : heldFor next.routeTo req = heldFor xbar.routeTo req)
    (quiet : responsesTo req labels = []) :
    Books id req next ∧ Move coherent id req xbar next (event, labels) := by
  refine ⟨⟨fun held => books.unqueued (queued held), outstanding ▸ books.owned⟩, .apart ?_ (by rw [outstanding]) routed quiet⟩
  intro pass found
  rw [unpassed] at found
  cases found

theorem recvTimingReq_moves {random : Nat} (member : cleans req) (books : Books id req xbar)
    (conforms : Conforms coherent cleans (.recvTimingReq now random port pkt snoop))
    (own : ∀ key request issuer satisfied,
      passOf coherent (.recvTimingReq now random port pkt snoop, labels) = some (.clean key request issuer satisfied) →
      (key = id ↔ request = req))
    (handled : Handled coherent xbar next pkt port snoop labels) :
    Books id req next ∧ Move coherent id req xbar next (.recvTimingReq now random port pkt snoop, labels) := by
  cases handled with
  | refused routed outstanding queued neutral =>
    refine quiet_moves books ?_ outstanding (queued req) (by rw [routed]) (Neutral.unanswered neutral req)
    simp [passOf, Neutral.unaccepted neutral]
  | @accepted snooped recorded reached made responses answers respondDirectly labelled neutral sameId sameReq sameCmd
      satisfied outstanding routed queued turned completed nextRouted nextOutstanding nextMemories =>
    have answered := @responsesTo_accepted made responses neutral req port pkt answers
    have taken := any_accepted made responses port pkt answers
    rw [← labelled] at answered taken
    suffices Books id req reached ∧ Move coherent id req xbar reached (.recvTimingReq now random port pkt snoop, labels) from
      ⟨this.1.congr nextOutstanding nextMemories, this.2.congr rfl rfl nextOutstanding nextRouted⟩
    cases clean : pkt.isClean with
    | true =>
      simp only [Conforms, clean, if_true] at conforms
      obtain ⟨request, _, destination, quiet, silent⟩ := conforms
      obtain ⟨same, memories, rfl⟩ := turned clean request destination quiet silent
      have ordinary := (clean_command clean request).2.2.2.1
      have passed : passOf coherent (.recvTimingReq now random port pkt snoop, labels) =
          some (.clean pkt.id pkt.req.id port (satisfiedAbove coherent pkt snoop)) := by
        simp [passOf, taken, destination, clean]
      have kept : Books id req recorded := books.congr outstanding memories
      obtain ⟨after, move⟩ := clean_moves kept (own _ _ _ _ passed) clean request destination passed answered sameId sameReq
        sameCmd (satisfied ordinary) completed
      exact ⟨after, move.congr outstanding.symm same.symm rfl rfl⟩
    | false =>
      have other : pkt.req.id ≠ req := by
        intro same
        simp only [Conforms, clean, same] at conforms
        exact conforms member
      refine other_moves books other clean sameId sameReq sameCmd answered ?_ outstanding routed queued completed
      cases here : isDestination coherent pkt <;> simp [passOf, taken, clean, here]

theorem sendTimingResp_moves {type : XBarType} {finish : MemCtrl → Bool → Except Abort (MemCtrl × List MemLabel)}
    (books : Books id req xbar) (finishes : Finishes finish) (unpassed : passOf coherent (event, labels) = none)
    (ran : xbar.sendTimingResp params type now port finish = .ok (next, labels)) :
    Books id req next ∧ Move coherent id req xbar next (event, labels) := by
  unfold XBar.sendTimingResp at ran
  split at ran
  · cases ran
  next deferred rest waiting =>
    obtain ⟨⟨_, _, _⟩, received, ran⟩ := of_bind ran
    obtain ⟨⟨memory, made⟩, finished, ran⟩ := of_bind ran
    cases ran
    obtain ⟨queue, _⟩ := finishes _ _ _ _ (below_eq_ok finished)
    obtain ⟨memories, outstanding, sent⟩ := recvTimingResp_ok received
    have other : deferred.pkt.req.id ≠ req := by
      intro same
      exact books.unqueued ⟨port, deferred, by simp [waiting], same⟩
    have shrunk : ∀ held ∈ memory.packetQueue, held ∈ (xbar.memories port).packetQueue := by
      intro held member
      rw [queue, memories] at member
      split at member
      · exact mem_of_mem_tail member
      · exact member
    have quiet := Neutral.unanswered (neutral_memory port made) req
    refine quiet_moves books unpassed outstanding ?_ ?_ ?_
    · intro ⟨place, held, member, same⟩
      refine ⟨place, held, ?_, same⟩
      by_cases here : place = port
      · subst here
        exact shrunk held (by simpa [XBar.setMemory] using member)
      · simpa [XBar.setMemory, here, memories] using member
    · obtain ⟨_, routed, _⟩ | ⟨_, routed, _⟩ := sent
      · exact congrArg (heldFor · req) routed
      · refine (congrArg (heldFor · req) routed).trans ?_
        exact heldFor_erase_ne _ other
    · obtain ⟨_, _, rfl⟩ | ⟨_, _, issuer, _, rfl, same, _⟩ := sent
      · exact quiet
      · exact responsesTo_other issuer (by rwa [same]) quiet

theorem snoopResp_moves {taken : Bool} (books : Books id req xbar) (other : pkt.req.id ≠ req)
    (ran : CoherentXBar.recvTimingSnoopResp params xbar now pkt port = .ok (next, taken, labels)) :
    Books id req next ∧ Move coherent id req xbar next (.recvTimingSnoopResp now port pkt, labels) := by
  obtain ⟨_, _, rfl, rfl⟩ | ⟨destPort, _, _, _, same, rfl, rfl⟩ := recvTimingSnoopResp_cases ran
  · exact quiet_moves books rfl rfl (fun queued => queued) rfl rfl
  · exact quiet_moves books rfl rfl (fun queued => queued) (heldFor_erase_ne _ other)
      (responsesTo_other destPort (by rwa [same]) rfl)

theorem step_moves (member : cleans req) (books : Books id req xbar) (conforms : Conforms coherent cleans event)
    (own : ∀ key request issuer satisfied, passOf coherent (event, labels) = some (.clean key request issuer satisfied) →
      (key = id ↔ request = req))
    (ran : XBar.step params (.coherent coherent) xbar event = .ok (next, labels)) :
    Books id req next ∧ Move coherent id req xbar next (event, labels) := by
  cases event with
  | recvTimingReq =>
    obtain ⟨⟨reached, success, made⟩, received, ran⟩ := of_bind ran
    cases ran
    exact recvTimingReq_moves member books conforms own (recvTimingReq_handled received)
  | recvTimingSnoopResp =>
    obtain ⟨⟨reached, success, made⟩, received, ran⟩ := of_bind ran
    cases ran
    refine snoopResp_moves books ?_ received
    intro same
    simp only [Conforms, same] at conforms
    exact conforms member
  | dequeue now =>
    simp only [XBar.step] at ran
    refine sendTimingResp_moves books (fun memory taken next made finished => ?_) rfl ran
    exact @dequeue_queue { memory with dequeueEvent := none } next now taken made finished
  | recvRespRetry =>
    simp only [XBar.step] at ran
    refine sendTimingResp_moves books (fun memory taken next made finished => ?_) rfl ran
    obtain ⟨_, finished⟩ := of_require finished
    exact dequeue_queue finished
  | release port =>
    obtain ⟨⟨memory, made⟩, released, ran⟩ := of_bind ran
    obtain ⟨layer, _, ran⟩ := of_bind ran
    cases ran
    obtain ⟨same, _⟩ := release_cases (below_eq_ok released)
    refine quiet_moves books rfl rfl ?_ rfl (Neutral.unanswered (neutral_memory port made) req)
    rintro ⟨place, held, member, carried⟩
    refine ⟨place, held, ?_, carried⟩
    by_cases here : place = port
    · subst here
      simpa [XBar.setMemory, XBar.setReqLayer, same.packetQueue] using member
    · simpa [XBar.setMemory, XBar.setReqLayer, here] using member
  | reqLayerRelease | respLayerRelease =>
    obtain ⟨⟨layer, _⟩, _, ran⟩ := of_bind ran
    cases ran
    exact quiet_moves books rfl rfl (fun queued => queued) rfl rfl
  | reqLayerReturned | respLayerReturned =>
    obtain ⟨layer, _, ran⟩ := of_bind ran
    cases ran
    exact quiet_moves books rfl rfl (fun queued => queued) rfl rfl

def Uncleaned (coherent : CoherentParams) (id : Nat) (log : List Entry) : Prop :=
  ∀ time request port satisfied, passAt coherent log time ≠ some (.clean id request port satisfied)

def Unwritten (coherent : CoherentParams) (id : Nat) (log : List Entry) : Prop :=
  ∀ time, passAt coherent log time ≠ some (.write id)

inductive Phase (coherent : CoherentParams) (id req : Nat) (xbar : XBar) (log : List Entry) : Prop
  | fresh (uncleaned : Uncleaned coherent id log) (unwritten : Unwritten coherent id log)
      (outstanding : heldFor xbar.outstandingCMO id = []) (routed : heldFor xbar.routeTo req = [])
      (unanswered : answersTo req log = [])
  | cleaned {time : Nat} {port : PortID} {clean : Packet} (passed : passAt coherent log time = some (.clean id req port true))
      (unwritten : Unwritten coherent id log) (outstanding : heldFor xbar.outstandingCMO id = [(id, some clean)])
      (routed : heldFor xbar.routeTo req = [(req, port)]) (unanswered : answersTo req log = [])
  | written {wrote : Nat} (passed : passAt coherent log wrote = some (.write id)) (uncleaned : Uncleaned coherent id log)
      (outstanding : heldFor xbar.outstandingCMO id = [(id, none)]) (routed : heldFor xbar.routeTo req = [])
      (unanswered : answersTo req log = [])
  | unsatisfied {time : Nat} {port : PortID} (passed : passAt coherent log time = some (.clean id req port false))
      (outstanding : heldFor xbar.outstandingCMO id = []) (routed : heldFor xbar.routeTo req = [])
      (answered : answersTo req log = [(time, port)])
  | answered {time wrote : Nat} {port : PortID} (passed : passAt coherent log time = some (.clean id req port true))
      (write : passAt coherent log wrote = some (.write id)) (outstanding : heldFor xbar.outstandingCMO id = [])
      (routed : heldFor xbar.routeTo req = []) (answered : answersTo req log = [(max time wrote, port)])

theorem Uncleaned.snoc {past : List Entry} (uncleaned : Uncleaned coherent id past)
    (other : ∀ request port satisfied, passOf coherent entry ≠ some (.clean id request port satisfied)) :
    Uncleaned coherent id (past ++ [entry]) := by
  intro time request port satisfied passed
  obtain earlier | ⟨_, here⟩ := passAt_snoc passed
  · exact uncleaned _ _ _ _ earlier
  · exact other _ _ _ here

theorem Unwritten.snoc {past : List Entry} (unwritten : Unwritten coherent id past)
    (other : passOf coherent entry ≠ some (.write id)) : Unwritten coherent id (past ++ [entry]) := by
  intro time passed
  obtain earlier | ⟨_, here⟩ := passAt_snoc passed
  · exact unwritten _ earlier
  · exact other here

theorem answersTo_quiet {past : List Entry} {entry : Entry} (quiet : responsesTo req entry.2 = []) :
    answersTo req (past ++ [entry]) = answersTo req past := by
  simp [answersTo_snoc, quiet]

theorem answersTo_first {past : List Entry} (unanswered : answersTo req past = [])
    (answered : responsesTo req entry.2 = [port]) : answersTo req (past ++ [entry]) = [(past.length, port)] := by
  simp [answersTo_snoc, unanswered, answered]

theorem Paired.clean_once {past : List Entry} (paired : Paired coherent (past ++ [entry]))
    {request other : Nat} {issuer : PortID} {dirty : Bool} (earlier : passAt coherent past time = some (.clean id request port satisfied)) :
    passOf coherent entry ≠ some (.clean id other issuer dirty) := by
  intro again
  have inside := passAt_lt earlier
  have same := paired.cleans (passAt_snoc_old earlier) ((passAt_snoc_new coherent past entry).trans again) (.inl rfl)
  omega

theorem Paired.write_once {past : List Entry} (paired : Paired coherent (past ++ [entry]))
    (earlier : passAt coherent past time = some (.write id)) : passOf coherent entry ≠ some (.write id) := by
  intro again
  have inside := passAt_lt earlier
  have same := paired.writes (passAt_snoc_old earlier) ((passAt_snoc_new coherent past entry).trans again)
  omega

theorem Paired.past {past : List Entry} (paired : Paired coherent (past ++ [entry])) : Paired coherent past where
  cleans first second := paired.cleans (passAt_snoc_old first) (passAt_snoc_old second)
  writes first second := paired.writes (passAt_snoc_old first) (passAt_snoc_old second)
  unwritten first second := paired.unwritten (passAt_snoc_old first) (passAt_snoc_old second)

theorem Phase.apart {past : List Entry} (phase : Phase coherent id req xbar past)
    (other : ∀ pass, passOf coherent entry = some pass → ¬ Concerns id pass)
    (outstanding : heldFor next.outstandingCMO id = heldFor xbar.outstandingCMO id)
    (routed : heldFor next.routeTo req = heldFor xbar.routeTo req) (quiet : responsesTo req entry.2 = []) :
    Phase coherent id req next (past ++ [entry]) := by
  have unclean : ∀ request port satisfied, passOf coherent entry ≠ some (.clean id request port satisfied) :=
    fun _ _ _ found => other _ found rfl
  have unwrite : passOf coherent entry ≠ some (.write id) := fun found => other _ found rfl
  have same := @answersTo_quiet req past entry quiet
  cases phase with
  | fresh uncleaned unwritten waiting route unanswered =>
    exact .fresh (uncleaned.snoc unclean) (unwritten.snoc unwrite) (outstanding.trans waiting) (routed.trans route)
      (same.trans unanswered)
  | cleaned passed unwritten waiting route unanswered =>
    exact .cleaned (passAt_snoc_old passed) (unwritten.snoc unwrite) (outstanding.trans waiting) (routed.trans route)
      (same.trans unanswered)
  | written passed uncleaned waiting route unanswered =>
    exact .written (passAt_snoc_old passed) (uncleaned.snoc unclean) (outstanding.trans waiting) (routed.trans route)
      (same.trans unanswered)
  | unsatisfied passed waiting route answered =>
    exact .unsatisfied (passAt_snoc_old passed) (outstanding.trans waiting) (routed.trans route) (same.trans answered)
  | answered passed write waiting route answered =>
    exact .answered (passAt_snoc_old passed) (passAt_snoc_old write) (outstanding.trans waiting) (routed.trans route)
      (same.trans answered)

theorem Phase.clean {past : List Entry} (phase : Phase coherent id req xbar past) (paired : Paired coherent (past ++ [entry]))
    (passed : passOf coherent entry = some (.clean id req port satisfied)) :
    (Unwritten coherent id past ∧ heldFor xbar.outstandingCMO id = [] ∨
      satisfied = true ∧ ∃ wrote, passAt coherent past wrote = some (.write id) ∧
        heldFor xbar.outstandingCMO id = [(id, none)]) ∧
    heldFor xbar.routeTo req = [] ∧ answersTo req past = [] := by
  cases phase with
  | fresh _ unwritten waiting route unanswered => exact ⟨.inl ⟨unwritten, waiting⟩, route, unanswered⟩
  | @written wrote write _ waiting route unanswered =>
    refine ⟨.inr ⟨?_, wrote, write, waiting⟩, route, unanswered⟩
    cases satisfied with
    | true => rfl
    | false =>
      exact absurd (passAt_snoc_old write) (paired.unwritten ((passAt_snoc_new coherent past entry).trans passed))
  | cleaned earlier | unsatisfied earlier | answered earlier => exact absurd passed (paired.clean_once earlier)

theorem Phase.write {past : List Entry} (phase : Phase coherent id req xbar past)
    (paired : Paired coherent (past ++ [entry])) (passed : passOf coherent entry = some (.write id)) :
    (Uncleaned coherent id past ∧ heldFor xbar.outstandingCMO id = [] ∧ heldFor xbar.routeTo req = [] ∨
      ∃ time port clean, passAt coherent past time = some (.clean id req port true) ∧
        heldFor xbar.outstandingCMO id = [(id, some clean)] ∧ heldFor xbar.routeTo req = [(req, port)]) ∧
    answersTo req past = [] := by
  cases phase with
  | fresh uncleaned _ waiting route unanswered => exact ⟨.inl ⟨uncleaned, waiting, route⟩, unanswered⟩
  | @cleaned time port clean earlier _ waiting route unanswered =>
    exact ⟨.inr ⟨time, port, clean, earlier, waiting, route⟩, unanswered⟩
  | written earlier | answered _ earlier => exact absurd passed (paired.write_once earlier)
  | unsatisfied earlier =>
    exact absurd ((passAt_snoc_new coherent past entry).trans passed) (paired.unwritten (passAt_snoc_old earlier))

theorem Phase.step {past : List Entry} {entry : Entry} (phase : Phase coherent id req xbar past)
    (paired : Paired coherent (past ++ [entry])) (move : Move coherent id req xbar next entry) :
    Phase coherent id req next (past ++ [entry]) := by
  have here : ∀ {pass}, passOf coherent entry = some pass → passAt coherent (past ++ [entry]) past.length = some pass :=
    (passAt_snoc_new coherent past entry).trans
  cases move with
  | apart other outstanding routed quiet => exact phase.apart other outstanding routed quiet
  | unsatisfied passed outstanding routed answered =>
    obtain ⟨⟨_, waiting⟩ | ⟨impossible, _⟩, route, unanswered⟩ := phase.clean paired passed
    · exact .unsatisfied (here passed) (outstanding.trans waiting) (routed.trans route) (answersTo_first unanswered answered)
    · cases impossible
  | cleanFirst passed absent outstanding routed quiet =>
    obtain ⟨⟨unwritten, _⟩ | ⟨_, _, _, waiting⟩, route, unanswered⟩ := phase.clean paired passed
    · rw [route] at routed
      have still : passOf coherent entry ≠ some (.write id) := by
        rw [passed]
        nofun
      exact .cleaned (here passed) (unwritten.snoc still) outstanding routed ((answersTo_quiet quiet).trans unanswered)
    · rw [waiting] at absent
      cases absent
  | cleanLast passed present outstanding routed answered =>
    obtain ⟨⟨_, nothing⟩ | ⟨_, _, write, waiting⟩, route, unanswered⟩ := phase.clean paired passed
    · exact absurd nothing present
    · rw [waiting] at outstanding
      refine .answered (here passed) (passAt_snoc_old write) outstanding (routed.trans route) ?_
      rw [Nat.max_eq_left (Nat.le_of_lt (passAt_lt write))]
      exact answersTo_first unanswered answered
  | writeFirst passed absent outstanding routed quiet =>
    obtain ⟨⟨uncleaned, _, route⟩ | ⟨_, _, _, _, waiting, _⟩, unanswered⟩ := phase.write paired passed
    · have still : ∀ request port satisfied, passOf coherent entry ≠ some (.clean id request port satisfied) := by
        rw [passed]
        nofun
      exact .written (here passed) (uncleaned.snoc still) outstanding (routed.trans route)
        ((answersTo_quiet quiet).trans unanswered)
    · rw [waiting] at absent
      cases absent
  | writeLast passed present outstanding found routed answered =>
    obtain ⟨⟨_, nothing, _⟩ | ⟨_, port, clean, earlier, waiting, route⟩, unanswered⟩ := phase.write paired passed
    · exact absurd nothing present
    · rw [lookup_heldFor, route] at found
      cases found
      rw [waiting] at outstanding
      rw [route] at routed
      refine .answered (passAt_snoc_old earlier) (here passed) outstanding routed ?_
      rw [Nat.max_eq_right (Nat.le_of_lt (passAt_lt earlier))]
      exact answersTo_first unanswered answered

def Own (coherent : CoherentParams) (id req : Nat) (log : List Entry) : Prop :=
  ∀ time key request port satisfied, passAt coherent log time = some (.clean key request port satisfied) →
    (key = id ↔ request = req)

theorem Paired.own (paired : Paired coherent log)
    (passed : passAt coherent log time = some (.clean id req port satisfied)) : Own coherent id req log := by
  intro other key request issuer dirty found
  constructor
  · intro same
    rw [paired.cleans found passed (.inl same), passed] at found
    cases found
    rfl
  · intro same
    rw [paired.cleans found passed (.inr same), passed] at found
    cases found
    rfl

theorem run_phase {memories : PortID → MemCtrl} {events : List XBarEvent} {final : XBar} (member : cleans req)
    (conforms : ∀ event ∈ events, Conforms coherent cleans event) (idle : ¬ Queued { memories } req)
    (ran : run (logged (XBar.step params (.coherent coherent))) { memories } events = .ok (final, log))
    (paired : Paired coherent log) (own : Own coherent id req log) : Phase coherent id req final log := by
  let holds := fun (xbar : XBar) past => Paired coherent past → Own coherent id req past →
    Books id req xbar ∧ Phase coherent id req xbar past
  have start : holds { memories } [] := by
    intro _ _
    refine ⟨⟨idle, fun _ _ member => absurd member not_mem_nil⟩, .fresh ?_ ?_ rfl rfl rfl⟩
    · intro time _ _ _ passed
      simp [passAt] at passed
    · intro time passed
      simp [passAt] at passed
  have reached : holds final ([] ++ log) := by
    refine run_preserves (fun _ event => Conforms coherent cleans event) holds ?_ start
      (each_of_forall (fun _ => conforms) _) ran
    intro xbar past event next entries kept allowed taken paired own
    obtain ⟨_, stepped, rfl⟩ := logged_eq_ok.mp taken
    obtain ⟨books, phase⟩ := kept paired.past fun time key request port satisfied passed =>
      own time key request port satisfied (passAt_snoc_old passed)
    obtain ⟨after, move⟩ := step_moves member books allowed
      (fun _ _ _ _ found => own past.length _ _ _ _ ((passAt_snoc_new coherent past _).trans found)) stepped
    exact ⟨after, phase.step paired move⟩
  exact (reached paired own).2

structure Cleared (xbar : XBar) (id req : Nat) : Prop where
  outstanding : ∀ entry ∈ xbar.outstandingCMO, entry.1 ≠ id
  routed : ∀ entry ∈ xbar.routeTo, entry.1 ≠ req

theorem conforms_clean (conforms : Conforms coherent cleans event)
    (passed : passOf coherent (event, labels) = some (.clean id req port satisfied)) : cleans req := by
  cases event with
  | recvTimingReq =>
    simp only [passOf] at passed
    split at passed
    · split at passed
      next clean =>
        cases passed
        simp only [Conforms, clean, if_true] at conforms
        exact conforms.2.1
      · split at passed <;> cases passed
    · cases passed
  | _ => cases passed

end Pair

/-- Every clean is answered once, at the port it came from: as it passes if no cache
satisfies it, and otherwise as the later of it and its write passes. After that nothing
of it is left in the tables. A run that an assertion or the check of the routing table's
size ends is not covered: what would have completed its cleans may not have come yet. -/
theorem cleans_answered_once {params : XBarParams} {coherent : CoherentParams} {memories : PortID → MemCtrl}
    {events : List XBarEvent} {final : XBar} {log : List Entry} (cleans : Nat → Prop)
    (conforms : ∀ event ∈ events, Conforms coherent cleans event) (idle : ∀ req, cleans req → ¬ Queued { memories } req)
    (ran : run (logged (XBar.step params (.coherent coherent))) { memories } events = .ok (final, log))
    (paired : Paired coherent log) {time id req : Nat} {port : PortID} {satisfied : Bool}
    (passed : passAt coherent log time = some (.clean id req port satisfied)) :
    (satisfied = false → answersTo req log = [(time, port)] ∧ Cleared final id req) ∧
    (satisfied = true → ∀ wrote, passAt coherent log wrote = some (.write id) →
      answersTo req log = [(max time wrote, port)] ∧ Cleared final id req) ∧
    (satisfied = true → (∀ wrote, passAt coherent log wrote ≠ some (.write id)) → answersTo req log = []) := by
  have known : cleans req := by
    obtain ⟨⟨event, _⟩, found, here⟩ := bind_eq_some_iff.mp passed
    have inside : event ∈ events := by
      rw [← logged_events ran]
      exact List.mem_map_of_mem (mem_of_getElem? found)
    exact conforms_clean (conforms event inside) here
  have phase := run_phase known conforms (idle req known) ran paired (paired.own passed)
  have cleared : heldFor final.outstandingCMO id = [] → heldFor final.routeTo req = [] → Cleared final id req :=
    fun outstanding routed => ⟨heldFor_eq_nil.mp outstanding, heldFor_eq_nil.mp routed⟩
  cases phase with
  | fresh uncleaned | written _ uncleaned => exact absurd passed (uncleaned _ _ _ _)
  | cleaned earlier unwritten _ _ unanswered =>
    have same := paired.cleans passed earlier (.inl rfl)
    rw [same, earlier] at passed
    cases passed
    exact ⟨nofun, fun _ wrote write => absurd write (unwritten wrote), fun _ _ => unanswered⟩
  | unsatisfied earlier outstanding routed answered =>
    have same := paired.cleans passed earlier (.inl rfl)
    rw [same, earlier] at passed
    cases passed
    rw [same]
    exact ⟨fun _ => ⟨answered, cleared outstanding routed⟩, nofun, nofun⟩
  | answered earlier write outstanding routed answered =>
    have same := paired.cleans passed earlier (.inl rfl)
    rw [same, earlier] at passed
    cases passed
    refine ⟨nofun, fun _ wrote found => ?_, fun _ unwritten => absurd write (unwritten _)⟩
    rw [same, paired.writes found write]
    exact ⟨answered, cleared outstanding routed⟩

def toMemory (cmd : MemCmd) (req : Nat) : Packet :=
  { Packet.ofRequest { id := req, paddr := 0, size := 32, flags := BaseFlag.dstPOC.bits } cmd (List.replicate 32 1) with id := 7 }

def cleanThenWrite : List XBarEvent :=
  [.recvTimingReq 0 0 1 (toMemory .cleanSharedReq 1) { satisfied := true },
   .recvTimingReq 0 0 0 (toMemory .writeClean 2) {}, .reqLayerRelease 0,
   .recvTimingReq 500 0 0 (toMemory .writeClean 2) {}]

theorem cleanThenWrite_ran : (run (logged (XBar.step busParams (.coherent systemBus))) { memories := fun _ => idleMemory }
    cleanThenWrite >>= fun ended => .ok (ended.2.map (passOf systemBus))) =
      .ok [some (.clean 7 1 1 true), none, none, some (.write 7)] := by rfl

theorem passAt_map (coherent : CoherentParams) (log : List Entry) (time : Nat) :
    passAt coherent log time = (log.map (passOf coherent))[time]?.join := by
  rw [passAt, getElem?_map]
  cases log[time]? <;> rfl

theorem cleanThenWrite_passes
    (passes : log.map (passOf systemBus) = [some (.clean 7 1 1 true), none, none, some (.write 7)]) {time : Nat} {pass : Pass}
    (passed : passAt systemBus log time = some pass) :
    time = 0 ∧ pass = .clean 7 1 1 true ∨ time = 3 ∧ pass = .write 7 := by
  rw [passAt_map, passes] at passed
  match time with
  | 0 => exact .inl ⟨rfl, (Option.some.inj passed).symm⟩
  | 1 | 2 => cases passed
  | 3 => exact .inr ⟨rfl, (Option.some.inj passed).symm⟩
  | time + 4 => simp at passed

theorem cleanThenWrite_answered : ∃ final log,
    run (logged (XBar.step busParams (.coherent systemBus))) { memories := fun _ => idleMemory } cleanThenWrite =
      .ok (final, log) ∧ answersTo 1 log = [(3, 1)] ∧ Cleared final 7 1 := by
  obtain ⟨⟨final, log⟩, ran, passes⟩ := of_bind cleanThenWrite_ran
  have passes := Except.ok.inj passes
  have only := @cleanThenWrite_passes log passes
  refine ⟨final, log, ran, ?_⟩
  have paired : Paired systemBus log := by
    refine ⟨fun first second _ => ?_, fun first second => ?_, fun first second => ?_⟩
    · obtain ⟨rfl, _⟩ | ⟨_, impossible⟩ := only first
      · obtain ⟨rfl, _⟩ | ⟨_, impossible⟩ := only second
        · rfl
        · cases impossible
      · cases impossible
    · obtain ⟨_, impossible⟩ | ⟨rfl, _⟩ := only first
      · cases impossible
      · obtain ⟨_, impossible⟩ | ⟨rfl, _⟩ := only second
        · cases impossible
        · rfl
    · obtain ⟨_, impossible⟩ | ⟨_, impossible⟩ := only first <;> cases impossible
  have conforms : ∀ event ∈ cleanThenWrite, Conforms systemBus (· = 1) event := by
    simp [cleanThenWrite, Conforms, toMemory, Packet.ofRequest, Packet.isClean]
    decide
  have idle : ∀ req, req = 1 → ¬ Queued { memories := fun _ => idleMemory } req := by
    rintro _ _ ⟨_, _, member, _⟩
    cases member
  have clean : passAt systemBus log 0 = some (.clean 7 1 1 true) := by
    rw [passAt_map, passes]
    rfl
  have write : passAt systemBus log 3 = some (.write 7) := by
    rw [passAt_map, passes]
    rfl
  exact (cleans_answered_once _ conforms idle ran paired clean).2.1 rfl 3 write

end ImcGem5.Mem.Proofs.Clean
