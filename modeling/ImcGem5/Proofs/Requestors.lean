import ImcGem5.Proofs.SnoopFilter

/-! What the snoop filter makes of requests. One that has to be sent again leaves no trace,
and those of caches and of others do not disturb each other unless a response to another
requestor, through a port that snoops, finds an entry of its line. -/

namespace ImcGem5.Mem.Proofs.Requestors
open Lib Proofs.SnoopFilter List

section Retry
variable {params : SnoopFilterParams} {filter next : SnoopFilter} {pkt : Packet} {port : PortID}

def Tidy (filter : SnoopFilter) : Prop := ∀ line, ¬ Null filter line

theorem find_of_entry {before after : SnoopFilter} (tidy : Tidy before) (tidy' : Tidy after) {line : Addr}
    (same : entry after line = entry before line) : after.find line = before.find line := by
  have full := tidy line
  have full' := tidy' line
  unfold entry at same
  cases found : before.find line with
  | none =>
    cases found' : after.find line with
    | none => rfl
    | some =>
      rw [found, found'] at same
      cases same
      exact absurd found' full'
  | some =>
    cases found' : after.find line with
    | none =>
      rw [found, found'] at same
      cases same
      exact absurd found full
    | some =>
      rw [found, found'] at same
      cases same
      rfl

variable {ports : List PortID}

theorem lookupRequest_finds {latency : Nat} (ran : filter.lookupRequest params pkt port = .ok (next, ports, latency)) {line : Addr}
    (looked : next.lookedUp = some line) : line = params.lineOf pkt ∧ ∃ item, next.find line = some item := by
  unfold SnoopFilter.lookupRequest at ran
  dsimp only at ran
  split at ran
  · cases ran
    cases looked
  · split at ran
    · cases ran
      cases looked
      exact ⟨rfl, _, AList.lookup_insert _⟩
    · obtain ⟨item, _, ran⟩ := of_bind ran
      cases ran
      cases looked
      exact ⟨rfl, _, AList.lookup_insert _⟩

theorem finishRequest_ok {latency : Nat} (tidy : Tidy filter)
    (ran : filter.lookupRequest params pkt port = .ok (next, ports, latency)) (willRetry : Bool) :
    ∃ final, next.finishRequest params willRetry pkt.addr pkt.isSecure = .ok final ∧ Tidy final ∧ ∀ line,
      entry final line = if line = params.lineOf pkt ∧ willRetry = false then entry next line else entry filter line := by
  cases lookupRequest_cases ran with
  | absent =>
    refine ⟨_, rfl, tidy, fun line => ?_⟩
    split <;> rfl
  | present lookedUp retryItem updates =>
    obtain ⟨_, item, found⟩ := lookupRequest_finds ran lookedUp
    have line : params.lineAddr pkt.addr pkt.isSecure = params.lineOf pkt := rfl
    have finishes : next.finishRequest params willRetry pkt.addr pkt.isSecure =
        .ok ((next.set (params.lineOf pkt) (if willRetry then next.retryItem else item)).eraseIfNullEntry (params.lineOf pkt)) := by
      rw [SnoopFilter.finishRequest, lookedUp]
      dsimp only
      rw [found, line, beq_self_eq_true]
      rfl
    have edits := edits_erase next (params.lineOf pkt) (if willRetry then next.retryItem else item)
    refine ⟨_, finishes, fun other null => ?_, fun other => ?_⟩
    · obtain ⟨apart, earlier⟩ := edits.null other null
      obtain ⟨_, before⟩ | ⟨same, _⟩ := updates.null other earlier
      · exact tidy other before
      · exact apart same
    · rw [edits.entry]
      by_cases here : other = params.lineOf pkt
      · subst here
        rw [if_pos rfl]
        cases willRetry with
        | true => rw [if_pos rfl, if_neg (fun both => nomatch both.2), retryItem]
        | false =>
          rw [if_neg Bool.false_ne_true, if_pos ⟨rfl, rfl⟩, SnoopFilter.entry, found]
          rfl
      · rw [if_neg here, if_neg (fun both => here both.1), updates.entry, if_neg here]

/-- A request that is to be sent again leaves the filter as it was. One that went through
changes what is known of its line only, and leaves no empty entry. -/
theorem retry_restores {ports : List PortID} {latency : Nat} (tidy : Tidy filter)
    (ran : filter.lookupRequest params pkt port = .ok (next, ports, latency)) :
    (∃ undone, next.finishRequest params true pkt.addr pkt.isSecure = .ok undone ∧ ∀ line, undone.find line = filter.find line) ∧
    ∃ done, next.finishRequest params false pkt.addr pkt.isSecure = .ok done ∧ Tidy done ∧
      ∀ line, line ≠ params.lineOf pkt → done.find line = filter.find line := by
  obtain ⟨undone, undoes, tidy', entries⟩ := finishRequest_ok tidy ran true
  obtain ⟨done, does, tidy'', entries'⟩ := finishRequest_ok tidy ran false
  refine ⟨⟨undone, undoes, fun line => find_of_entry tidy tidy' ?_⟩, done, does, tidy'', fun line apart => find_of_entry tidy tidy'' ?_⟩
  · rw [entries, if_neg (fun both => nomatch both.2)]
  · rw [entries', if_neg (fun both => apart both.1)]

theorem retry_restores_first : ∃ next ports latency,
    ({} : SnoopFilter).lookupRequest onePort (lineRead .readSharedReq 1) 0 = .ok (next, ports, latency) ∧
    ∃ undone, next.finishRequest onePort true 0x1000 false = .ok undone ∧ ∀ line, undone.find line = none := by
  have ran : SnoopFilter.lookupRequest onePort {} (lineRead .readSharedReq 1) 0 = .ok (oneEntry { requested := 1 }, [], 1) := by rfl
  have tidy : Tidy {} := fun line null => nomatch null
  exact ⟨_, _, _, ran, (retry_restores tidy ran).1⟩

end Retry

/-- The filter of a crossbar, the ports above which a cache holds each line, and the
requests that wait for a response. -/
structure Bus where
  filter : SnoopFilter := {}
  holds : Set (Addr × PortID) := ∅
  outstanding : List Outstanding := []

/-- A request that was accepted, or the response to the one at some place in the list of
those outstanding. -/
inductive Traffic where
  | request (pkt : Packet) (port : PortID)
  | response (which : Nat) (pkt : Packet)

section Mixture
variable {params : SnoopFilterParams} {bus : Bus} {pkt : Packet} {port : PortID} {request : Outstanding} {which : Nat}

/-- The caches above a port give a line up with an eviction, unless another of them still
has it, and gain one with the response to an ordinary request of a cache. -/
def gives (pkt : Packet) : Bool := pkt.isEviction && !pkt.blockCached

def heldAfterResponse (params : SnoopFilterParams) (holds : Set (Addr × PortID)) (request : Outstanding) (pkt : Packet) :
    Set (Addr × PortID) :=
  if pkt.req.isCacheMaintenance then
    if pkt.isInvalidate then holds \ {(params.lineOf pkt, request.port)} else holds
  else if request.pkt.fromCache then insert (params.lineOf pkt, request.port) holds else holds

def step (params : SnoopFilterParams) : Step Bus Traffic Unit Abort
  | bus, .request pkt port => do
    let (looked, _, _) ← bus.filter.lookupRequest params pkt port
    let filter ← looked.finishRequest params false pkt.addr pkt.isSecure
    return ({ filter
              holds := if gives pkt then bus.holds \ {(params.lineOf pkt, port)} else bus.holds
              outstanding := if Outstanding.awaited ⟨pkt, port⟩ then ⟨pkt, port⟩ :: bus.outstanding else bus.outstanding }, [])
  | bus, .response which pkt =>
    match bus.outstanding[which]? with
    | none => .ok (bus, [])
    | some request => do
      let filter ← bus.filter.updateResponse params pkt request.port
      return ({ filter
                holds := heldAfterResponse params bus.holds request pkt
                outstanding := bus.outstanding.eraseIdx which }, [])

def Alike (params : SnoopFilterParams) (one other : Outstanding) : Prop :=
  params.lineOf one.pkt = params.lineOf other.pkt ∧ one.port = other.port

/-- Cacheable requests, at most one of them outstanding for a line and a port. Evictions come
from holders, and so do requests that a cache above already responds to. A WriteClean
does not pass by the filter. -/
def Legal (params : SnoopFilterParams) (bus : Bus) : Traffic → Prop
  | .request pkt port => pkt.isRequest = true ∧ pkt.req.isUncacheable = false ∧ pkt.cmd ≠ .writeClean ∧
    (pkt.isEviction = true ∨ pkt.cacheResponding = true → (params.lineOf pkt, port) ∈ bus.holds) ∧
    (Outstanding.awaited ⟨pkt, port⟩ = true → ∀ other ∈ bus.outstanding, ¬ Alike params ⟨pkt, port⟩ other)
  | .response which pkt => pkt.isResponse = true ∧ ∃ request, bus.outstanding[which]? = some request ∧
    Answers pkt request.port request

/-- A response to a request that did not come from a cache finds no entry of its line, if
its port snoops. -/
def Clear (params : SnoopFilterParams) (bus : Bus) : Traffic → Prop
  | .request _ _ => True
  | .response which pkt => ∀ request, bus.outstanding[which]? = some request → params.isSnooping request.port = true →
    request.pkt.fromCache = false → bus.filter.find (params.lineOf pkt) = none

theorem isEviction_of_fromCache (cmd : MemCmd) (fromCache : cmd.fromCache = true) (silent : cmd.needsResponse = false)
    (passes : cmd ≠ .writeClean) : cmd.isEviction = true := by
  cases cmd <;> first | rfl | exact absurd rfl passes | exact absurd fromCache (by decide) | exact absurd silent (by decide)

/-- The requested bits are the requests of caches that are outstanding, and every holder
has its bit. -/
structure Kept (params : SnoopFilterParams) (bus : Bus) : Prop where
  requested : ∀ line port, params.isSnooping port = true → (Has params (entry bus.filter line).requested port ↔
    ∃ request ∈ bus.outstanding, request.Tracks params line port)
  holder : ∀ line port, params.isSnooping port = true → (line, port) ∈ bus.holds → Has params (entry bus.filter line).holder port
  once : bus.outstanding.Pairwise fun one other => ¬ Alike params one other
  cacheable : ∀ request ∈ bus.outstanding, request.pkt.req.isUncacheable = false
  tidy : Tidy bus.filter

theorem kept_start : Kept params {} where
  requested _ _ _ := ⟨fun has => absurd has not_has_zero, fun ⟨_, member, _⟩ => nomatch member⟩
  holder _ _ _ member := absurd member (Set.notMem_empty _)
  once := .nil
  cacheable _ member := nomatch member
  tidy _ null := nomatch null

section

variable (kept : Kept params bus)
include kept

theorem Kept.alone {rest : List Outstanding} (paired : bus.outstanding.Perm (request :: rest))
    {other : Outstanding} (member : other ∈ rest) : ¬ Alike params request other := by
  have sym : ∀ {one other}, ¬ Alike params one other → ¬ Alike params other one :=
    fun apart same => apart ⟨same.1.symm, same.2.symm⟩
  exact rel_of_pairwise_cons ((paired.pairwise_iff sym).mp kept.once) member

theorem lookupRequest_ok (legal : Legal params bus (.request pkt port)) :
    ∃ next ports latency, bus.filter.lookupRequest params pkt port = .ok (next, ports, latency) := by
  obtain ⟨_, _, passes, holder, alone⟩ := legal
  unfold SnoopFilter.lookupRequest
  dsimp only
  split
  · exact ⟨_, _, _, rfl⟩
  split
  · exact ⟨_, _, _, rfl⟩
  next allocated =>
    have allocated : params.allocate pkt port = true := by simpa using allocated
    have parts := allocated
    simp only [SnoopFilterParams.allocate, Bool.and_eq_true] at parts
    obtain ⟨⟨_, snooping⟩, fromCache⟩ := parts
    have held : pkt.isEviction = true ∨ pkt.cacheResponding = true →
        ((entry bus.filter (params.lineOf pkt)).holder &&& params.portToMask port == 0) = false := by
      intro cause
      rw [beq_eq_false_iff_ne]
      exact (has_iff snooping _).mpr (kept.holder _ _ snooping (holder cause))
    have asked : ∃ item, (entry bus.filter (params.lineOf pkt)).request pkt (params.portToMask port) = .ok item := by
      unfold SnoopItem.request
      split
      next needs =>
        split
        next quiet =>
          have fresh : ((entry bus.filter (params.lineOf pkt)).requested &&& params.portToMask port != 0) = false := by
            rw [bne_eq_false_iff_eq]
            by_contra set
            obtain ⟨other, member, tracks⟩ := (kept.requested _ _ snooping).mp ((has_iff snooping _).mp set)
            have awaited : Outstanding.awaited ⟨pkt, port⟩ = true := by
              rw [Outstanding.awaited, needs, quiet]
              rfl
            exact alone awaited other member ⟨tracks.2.1.symm, tracks.2.2.symm⟩
          rw [fresh]
          exact ⟨_, rfl⟩
        next responding =>
          rw [held (.inr (by simpa using responding))]
          exact ⟨_, rfl⟩
      next silent =>
        have gone : pkt.isEviction = true := isEviction_of_fromCache pkt.cmd fromCache (Bool.eq_false_iff.mpr silent) passes
        rw [gone, held (.inl gone)]
        exact ⟨_, rfl⟩
    obtain ⟨item, ran⟩ := asked
    have ran' : ((bus.filter.find (params.lineOf pkt)).getD {}).request pkt (params.portToMask port) = .ok item := ran
    rw [ran']
    exact ⟨_, _, _, rfl⟩

theorem looked_kept {next : SnoopFilter} (looked : LookedUp params bus.filter pkt port next ports) {other : PortID}
    (snooping : params.isSnooping other = true) :
    (Has params (entry next (params.lineOf pkt)).requested other ↔
      (∃ request ∈ bus.outstanding, request.Tracks params (params.lineOf pkt) other) ∨
        Outstanding.awaited ⟨pkt, port⟩ = true ∧ Outstanding.Tracks params ⟨pkt, port⟩ (params.lineOf pkt) other) ∧
    ((params.lineOf pkt, other) ∈ bus.holds → ¬ (gives pkt = true ∧ other = port) →
      Has params (entry next (params.lineOf pkt)).holder other) := by
  have before := kept.requested (params.lineOf pkt) other snooping
  have held := kept.holder (params.lineOf pkt) other snooping
  -- where the item stays as it is, the request is not one to wait for
  have unchanged : (Outstanding.awaited ⟨pkt, port⟩ = true → params.allocate pkt port = false) →
      (Has params (entry bus.filter (params.lineOf pkt)).requested other ↔
        (∃ request ∈ bus.outstanding, request.Tracks params (params.lineOf pkt) other) ∨
          Outstanding.awaited ⟨pkt, port⟩ = true ∧ Outstanding.Tracks params ⟨pkt, port⟩ (params.lineOf pkt) other) := by
    intro foreign
    rw [before]
    refine ⟨.inl, fun either => either.resolve_right fun both => ?_⟩
    have allocated := both.2.1
    rw [show params.allocate pkt port = false from foreign both.1] at allocated
    cases allocated
  cases looked with
  | absent none foreign => exact ⟨unchanged fun _ => foreign, fun member _ => held member⟩
  | present lookedUp retryItem updates made =>
    rename_i item
    rw [updates.entry, if_pos rfl]
    obtain ⟨foreign, found⟩ | ⟨allocated, made⟩ := made
    · have same : item = entry bus.filter (params.lineOf pkt) := by
        rw [SnoopFilter.entry, found]
        rfl
      rw [same]
      exact ⟨unchanged fun _ => foreign, fun member _ => held member⟩
    · have portSnoops : params.isSnooping port = true := by
        simp only [SnoopFilterParams.allocate, Bool.and_eq_true] at allocated
        exact allocated.1.2
      cases made with
      | asked needs quiet first =>
        have awaited : Outstanding.awaited ⟨pkt, port⟩ = true := by
          rw [Outstanding.awaited, needs, quiet]
          rfl
        refine ⟨?_, fun member _ => held member⟩
        rw [has_or, before, has_portToMask portSnoops snooping]
        refine or_congr_right ⟨?_, fun both => both.2.2.2.symm⟩
        rintro rfl
        exact ⟨awaited, allocated, rfl, rfl⟩
      | promised needs responding =>
        refine ⟨unchanged fun awaited => ?_, fun member _ => held member⟩
        rw [Outstanding.awaited, needs, responding] at awaited
        cases awaited
      | evicted silent gone uncached =>
        refine ⟨unchanged fun awaited => ?_, fun member stays => ?_⟩
        · rw [Outstanding.awaited, silent] at awaited
          cases awaited
        · rw [has_without portSnoops snooping]
          refine ⟨held member, fun same => stays ⟨?_, same⟩⟩
          rw [gives, gone, uncached]
          rfl
      | kept silent cached =>
        refine ⟨unchanged fun awaited => ?_, fun member _ => held member⟩
        rw [Outstanding.awaited, silent] at awaited
        cases awaited

theorem request_step (legal : Legal params bus (.request pkt port)) :
    ∃ after, step params bus (.request pkt port) = .ok (after, []) ∧ Kept params after := by
  obtain ⟨next, _, _, ran⟩ := lookupRequest_ok kept legal
  obtain ⟨_, finishes, tidy, entries⟩ := finishRequest_ok kept.tidy ran false
  have looked := lookupRequest_cases ran
  refine ⟨_, by rw [step, ran, ok_bind]; dsimp only; rw [finishes, ok_bind]; rfl, ?_⟩
  refine ⟨fun line other snooping => ?_, fun line other snooping member => ?_, ?_, ?_, tidy⟩
  · rw [entries]
    have more : (∃ request ∈ (if Outstanding.awaited ⟨pkt, port⟩ then ⟨pkt, port⟩ :: bus.outstanding else bus.outstanding),
        request.Tracks params line other) ↔ (∃ request ∈ bus.outstanding, request.Tracks params line other) ∨
          Outstanding.awaited ⟨pkt, port⟩ = true ∧ Outstanding.Tracks params ⟨pkt, port⟩ line other := by
      split
      next awaited => simp [awaited, or_comm]
      next asleep => simp [asleep]
    rw [more]
    by_cases here : line = params.lineOf pkt
    · subst here
      rw [if_pos ⟨rfl, rfl⟩]
      exact (looked_kept kept looked snooping).1
    · rw [if_neg (fun both => here both.1), kept.requested line other snooping]
      exact ⟨.inl, fun either => either.resolve_right fun both => here both.2.2.1.symm⟩
  · rw [entries]
    have member' : (line, other) ∈ bus.holds ∧ ¬ (gives pkt = true ∧ line = params.lineOf pkt ∧ other = port) := by
      split at member
      next given =>
        refine ⟨member.1, fun all => member.2 ?_⟩
        rw [all.2.1, all.2.2]
        rfl
      next kept => exact ⟨member, fun all => kept all.1⟩
    by_cases here : line = params.lineOf pkt
    · subst here
      rw [if_pos ⟨rfl, rfl⟩]
      exact (looked_kept kept looked snooping).2 member'.1 fun both => member'.2 ⟨both.1, rfl, both.2⟩
    · rw [if_neg (fun both => here both.1)]
      exact kept.holder line other snooping member'.1
  · dsimp only
    split
    next awaited => exact pairwise_cons.mpr ⟨legal.2.2.2.2 awaited, kept.once⟩
    · exact kept.once
  · dsimp only
    intro request member
    split at member
    · rcases mem_cons.mp member with rfl | member
      · exact legal.2.1
      · exact kept.cacheable request member
    · exact kept.cacheable request member

end

theorem outstanding_split (found : bus.outstanding[which]? = some request) :
    bus.outstanding.Perm (request :: bus.outstanding.eraseIdx which) := by
  obtain ⟨inside, is⟩ := List.getElem?_eq_some_iff.mp found
  exact is ▸ (getElem_cons_eraseIdx_perm inside).symm

theorem tracked_split {rest : List Outstanding} (paired : bus.outstanding.Perm (request :: rest)) (line : Addr) (other : PortID) :
    (∃ waiting ∈ bus.outstanding, waiting.Tracks params line other) ↔
      request.Tracks params line other ∨ ∃ waiting ∈ rest, waiting.Tracks params line other := by
  simp only [paired.mem_iff, mem_cons, exists_eq_or_imp]

theorem heldAfterResponse_gains {holds : Set (Addr × PortID)} {place : Addr × PortID}
    (held : place ∈ heldAfterResponse params holds request pkt) : place ∈ holds ∨
      place = (params.lineOf pkt, request.port) ∧ request.pkt.fromCache = true ∧ pkt.req.isCacheMaintenance = false := by
  unfold heldAfterResponse at held
  split at held
  · split at held
    · exact .inl held.1
    · exact .inl held
  next ordinary =>
    split at held
    next fromCache =>
      rcases held with same | held
      · exact .inr ⟨same, fromCache, by simpa using ordinary⟩
      · exact .inl held
    · exact .inl held

section

variable (kept : Kept params bus)
include kept

theorem Kept.erased (found : bus.outstanding[which]? = some request) :
    (bus.outstanding.eraseIdx which).Pairwise fun one other => ¬ Alike params one other := by
  have sym : ∀ {one other}, ¬ Alike params one other → ¬ Alike params other one :=
    fun apart same => apart ⟨same.1.symm, same.2.symm⟩
  exact (pairwise_cons.mp (((outstanding_split found).pairwise_iff sym).mp kept.once)).2

/-- A response that the filter takes no notice of answers a request it took no notice of. -/
theorem response_untracked (member : request ∈ bus.outstanding) (line : params.lineOf pkt = params.lineOf request.pkt)
    (cacheable : pkt.req.isUncacheable = false)
    (skipped : (pkt.req.isUncacheable || !params.isSnooping request.port) = true ∨ entry bus.filter (params.lineOf pkt) = {})
    {address : Addr} {other : PortID} (snooping : params.isSnooping other = true) : ¬ request.Tracks params address other := by
  rintro ⟨allocated, rfl, rfl⟩
  have silent : entry bus.filter (params.lineOf pkt) = {} := by
    refine skipped.resolve_left fun quiet => ?_
    rw [cacheable, snooping] at quiet
    cases quiet
  have has := (kept.requested _ _ snooping).mpr ⟨request, member, allocated, line.symm, rfl⟩
  rw [silent] at has
  exact not_has_zero has

section Edited
variable {filter : SnoopFilter} (edits : Edits bus.filter filter (params.lineOf pkt)
    { requested := (entry bus.filter (params.lineOf pkt)).requested &&& ~~~params.portToMask request.port
      holder := heldAfter pkt (entry bus.filter (params.lineOf pkt)).holder (params.portToMask request.port) })
  (snooping : params.isSnooping request.port = true)
include edits snooping

theorem response_requested (found : bus.outstanding[which]? = some request) (line : params.lineOf pkt = params.lineOf request.pkt)
    {address : Addr} {other : PortID} (snoops : params.isSnooping other = true) :
    Has params (entry filter address).requested other ↔
      ∃ waiting ∈ bus.outstanding.eraseIdx which, waiting.Tracks params address other := by
  have paired := outstanding_split found
  rw [edits.entry]
  split
  next here =>
    subst here
    rw [has_without snooping snoops, kept.requested _ _ snoops, tracked_split paired]
    constructor
    · rintro ⟨tracks | rest, apart⟩
      · exact absurd tracks.2.2.symm apart
      · exact rest
    · rintro ⟨waiting, inside, tracks⟩
      refine ⟨.inr ⟨waiting, inside, tracks⟩, ?_⟩
      rintro rfl
      exact kept.alone paired inside ⟨line.symm.trans tracks.2.1.symm, tracks.2.2.symm⟩
  next apart =>
    rw [kept.requested _ _ snoops, tracked_split paired]
    exact or_iff_right fun tracks => apart (tracks.2.1.symm.trans line.symm)

theorem response_holder {address : Addr} {other : PortID} (snoops : params.isSnooping other = true)
    (held : (address, other) ∈ heldAfterResponse params bus.holds request pkt) : Has params (entry filter address).holder other := by
  rw [edits.entry]
  split
  next here =>
    subst here
    unfold heldAfter
    split
    next maintenance =>
      unfold heldAfterResponse at held
      rw [if_pos maintenance] at held
      split
      next invalidates =>
        rw [if_pos invalidates] at held
        rw [has_without snooping snoops]
        refine ⟨kept.holder _ _ snoops held.1, ?_⟩
        rintro rfl
        exact held.2 rfl
      next stays =>
        rw [if_neg stays] at held
        exact kept.holder _ _ snoops held
    next ordinary =>
      rw [has_or, has_portToMask snooping snoops]
      obtain old | ⟨same, _⟩ := heldAfterResponse_gains held
      · exact .inl (kept.holder _ _ snoops old)
      · exact .inr (Prod.ext_iff.mp same).2
  next apart =>
    obtain old | ⟨same, _⟩ := heldAfterResponse_gains held
    · exact kept.holder _ _ snoops old
    · exact absurd (Prod.ext_iff.mp same).1 apart

end Edited

theorem response_kept (found : bus.outstanding[which]? = some request)
    (answers : Answers pkt request.port request) {filter : SnoopFilter}
    (ran : bus.filter.updateResponse params pkt request.port = .ok filter) :
    Kept params ⟨filter, heldAfterResponse params bus.holds request pkt, bus.outstanding.eraseIdx which⟩ := by
  have member : request ∈ bus.outstanding := mem_of_getElem? found
  have cacheable : pkt.req.isUncacheable = false := by
    rw [answers.req]
    exact kept.cacheable request member
  have line : params.lineOf pkt = params.lineOf request.pkt := answers.lineOf
  have others : ∀ other ∈ bus.outstanding.eraseIdx which, other.pkt.req.isUncacheable = false :=
    fun other inside => kept.cacheable other (mem_of_mem_eraseIdx inside)
  obtain ⟨skipped, rfl⟩ | ⟨_, snooping, _, edits⟩ := updateResponse_cases ran
  · have untracked := @response_untracked _ _ _ _ kept member line cacheable skipped
    refine ⟨fun line other snooping => ?_, fun line other snooping held => ?_, kept.erased found, others, kept.tidy⟩
    · rw [kept.requested line other snooping, tracked_split (outstanding_split found)]
      exact or_iff_right (untracked snooping)
    · obtain old | ⟨same, fromCache, _⟩ := heldAfterResponse_gains held
      · exact kept.holder line other snooping old
      · cases same
        have tracked : ¬ request.Tracks params (params.lineOf request.pkt) request.port := untracked snooping
        refine absurd ⟨?_, rfl, rfl⟩ tracked
        rw [SnoopFilterParams.allocate, snooping, fromCache, kept.cacheable request member]
        rfl
  · exact ⟨fun _ _ snoops => response_requested kept edits snooping found line snoops,
      fun _ _ snoops held => response_holder kept edits snooping snoops held, kept.erased found, others,
      fun address null => kept.tidy address (edits.null address null).2⟩

theorem response_ok_iff (isResponse : pkt.isResponse = true)
    (found : bus.outstanding[which]? = some request) (answers : Answers pkt request.port request) :
    (∃ filter, bus.filter.updateResponse params pkt request.port = .ok filter) ↔ Clear params bus (.response which pkt) := by
  have member : request ∈ bus.outstanding := mem_of_getElem? found
  have cacheable : pkt.req.isUncacheable = false := by
    rw [answers.req]
    exact kept.cacheable request member
  have line : params.lineOf pkt = params.lineOf request.pkt := answers.lineOf
  constructor
  · rintro ⟨filter, ran⟩ other same snooping foreign
    rw [found] at same
    cases same
    obtain ⟨skipped, _⟩ | ⟨_, _, asked, _⟩ := updateResponse_cases ran
    · obtain quiet | silent := skipped
      · rw [cacheable, snooping] at quiet
        cases quiet
      · cases absent : bus.filter.find (params.lineOf pkt) with
        | none => rfl
        | some =>
          rw [SnoopFilter.entry, absent] at silent
          cases silent
          exact absurd absent (kept.tidy _)
    · obtain ⟨waiting, inside, tracks⟩ := (kept.requested _ _ snooping).mp ((has_iff snooping _).mp asked)
      have fromCache : waiting.pkt.fromCache = true := by
        have allocated := tracks.1
        simp only [SnoopFilterParams.allocate, Bool.and_eq_true] at allocated
        exact allocated.2
      rcases mem_cons.mp ((outstanding_split found).mem_iff.mp inside) with rfl | other
      · rw [foreign] at fromCache
        cases fromCache
      · exact absurd ⟨line.symm.trans tracks.2.1.symm, tracks.2.2.symm⟩ (kept.alone (outstanding_split found) other)
  · intro clear
    unfold SnoopFilter.updateResponse
    rw [isResponse, require_true, ok_bind, cacheable, Bool.false_or]
    cases snooping : params.isSnooping request.port with
    | false => exact ⟨_, rfl⟩
    | true =>
      rw [Bool.not_true, if_neg Bool.false_ne_true]
      dsimp only
      split
      · exact ⟨_, rfl⟩
      next item present =>
        have fromCache : request.pkt.fromCache = true := by
          by_contra foreign
          have absent := clear request found snooping (Bool.eq_false_iff.mpr foreign)
          rw [present] at absent
          cases absent
        have has : Has params item.requested request.port := by
          have tracked := (kept.requested (params.lineOf pkt) _ snooping).mpr ⟨request, member, by
            rw [SnoopFilterParams.allocate, snooping, fromCache, kept.cacheable request member]
            rfl, line.symm, rfl⟩
          rwa [SnoopFilter.entry, present] at tracked
        have asked : (item.requested &&& params.portToMask request.port == 0) = false :=
          beq_eq_false_iff_ne.mpr ((has_iff snooping _).mpr has)
        rw [asked, panicIf_false, ok_bind]
        split
        · exact ⟨_, rfl⟩
        · have some : (item.holder ||| params.portToMask request.port ||| item.requested &&& ~~~params.portToMask request.port != 0) =
              true := by
            rw [bne_iff_ne, BitVec.or_comm]
            exact or_portToMask_ne_zero snooping _ _
          rw [some]
          exact ⟨_, rfl⟩

theorem step_ok_iff {traffic : Traffic} (legal : Legal params bus traffic) :
    (∃ taken, step params bus traffic = .ok taken) ↔ Clear params bus traffic := by
  cases traffic with
  | request =>
    obtain ⟨_, ran, _⟩ := request_step kept legal
    exact ⟨fun _ => trivial, fun _ => ⟨_, ran⟩⟩
  | response =>
    obtain ⟨isResponse, request, found, answers⟩ := legal
    rw [← response_ok_iff kept isResponse found answers, step, found]
    constructor
    · rintro ⟨taken, ran⟩
      obtain ⟨filter, updates, _⟩ := of_bind ran
      exact ⟨filter, updates⟩
    · rintro ⟨filter, updates⟩
      exact ⟨_, bind_eq_ok.mpr ⟨filter, updates, rfl⟩⟩

theorem step_kept {traffic : Traffic} {after : Bus} {labels : List Unit} (legal : Legal params bus traffic)
    (ran : step params bus traffic = .ok (after, labels)) : Kept params after := by
  cases traffic with
  | request =>
    obtain ⟨_, steps, kept'⟩ := request_step kept legal
    rw [steps] at ran
    cases ran
    exact kept'
  | response =>
    obtain ⟨_, request, found, answers⟩ := legal
    rw [step, found] at ran
    obtain ⟨_, updates, ran⟩ := of_bind ran
    cases ran
    exact response_kept kept found answers updates

end

/-- No panic and no failed assertion stops a run exactly if all its responses are clear. -/
theorem accepts_iff (params : SnoopFilterParams) (traffic : List Traffic) (legal : Each (step params) (Legal params) {} traffic) :
    (∃ ended, run (step params) {} traffic = .ok ended) ↔ Each (step params) (Clear params) {} traffic :=
  run_ok_iff (Legal params) (Clear params) (Kept params) (fun _ _ kept legal => step_ok_iff kept legal)
    (fun _ _ _ _ kept legal ran => step_kept kept legal ran) kept_start legal

end Mixture

def twoPorts : SnoopFilterParams where
  linesize := 64
  lookupLatency := 1
  maxEntryCount := 131072
  snooping := [true, true]
  fits := by decide

theorem lineRead_legal {pkt : Packet} (reads : pkt = lineRead .readReq 2 ∨ pkt = lineRead .readSharedReq 1) (bus : Bus)
    (quiet : bus.outstanding = []) (port : PortID) : Legal twoPorts bus (.request pkt port) := by
  obtain rfl | rfl := reads <;> refine ⟨rfl, rfl, by decide, fun either => ?_, fun _ _ member => ?_⟩
  · rcases either with impossible | impossible <;> cases impossible
  · rw [quiet] at member
    cases member
  · rcases either with impossible | impossible <;> cases impossible
  · rw [quiet] at member
    cases member

/-- The processor reads a line, and then its neighbour does. -/
def processorTraffic : List Traffic :=
  [.request (lineRead .readReq 2) 0, .response 0 (lineRead .readResp 2), .request (lineRead .readSharedReq 1) 1, .response 0 (lineRead .readResp 1)]

theorem accepts_processor : ∃ ended, run (step twoPorts) {} processorTraffic = .ok ended := by
  have legal : Each (step twoPorts) (Legal twoPorts) {} processorTraffic :=
    ⟨lineRead_legal (.inl rfl) {} rfl 0, ⟨rfl, _, rfl, rfl, rfl, rfl, rfl⟩,
      lineRead_legal (.inr rfl) _ rfl 1, ⟨rfl, _, rfl, rfl, rfl, rfl, rfl⟩, trivial⟩
  refine (accepts_iff twoPorts _ legal).mpr ⟨trivial, ?_, trivial, ?_, trivial⟩
  · rintro request _ _ _
    rfl
  · rintro request found _ foreign
    cases found
    cases foreign

/-- While the processor waits for a line its neighbour asks for the same one. -/
theorem mixture_panics : ∃ traffic, Each (step twoPorts) (Legal twoPorts) {} traffic ∧
    run (step twoPorts) {} traffic = .error (.panic "SF value missing request bit") := by
  refine ⟨[.request (lineRead .readReq 2) 0, .request (lineRead .readSharedReq 1) 1, .response 1 (lineRead .readResp 2)],
    ⟨lineRead_legal (.inl rfl) {} rfl 0, ⟨rfl, rfl, nofun, fun either => ?_, fun _ _ member same => ?_⟩, ⟨rfl, _, rfl, rfl, rfl, rfl, rfl⟩,
      trivial⟩, by rfl⟩
  · rcases either with impossible | impossible <;> cases impossible
  · cases mem_singleton.mp member
    cases same.2

end ImcGem5.Mem.Proofs.Requestors
