import ImcGem5.Mem.SnoopFilter
import ImcGem5.Lib.Runs
import Mathlib.Data.Set.Insert
import Mathlib.Data.List.Perm.Basic

/-! The snoop filter against the caches above it. The caches are the set of ports that
hold each line, and what is assumed of them is what they let the crossbar see. -/

namespace ImcGem5.Mem.Proofs.SnoopFilter
open Lib List SnoopFilterParams

section Masks
variable {params : SnoopFilterParams} {port other : PortID}

def Has (params : SnoopFilterParams) (mask : SnoopMask) (port : PortID) : Prop :=
  mask.getLsbD (params.localResponsePortId port) = true

section

variable (snooping : params.isSnooping port = true)
include snooping

theorem lt_of_isSnooping : port < params.snooping.length := by
  by_contra outside
  rw [isSnooping, getD_eq_default _ _ (Nat.le_of_not_lt outside)] at snooping
  cases snooping

theorem localResponsePortId_lt (before : port < other) : params.localResponsePortId port < params.localResponsePortId other := by
  have inside := lt_of_isSnooping snooping
  have here : params.snooping[port] = true := by
    rwa [isSnooping, getD_eq_getElem _ _ inside] at snooping
  have next : (params.snooping.take (port + 1)).count true = (params.snooping.take port).count true + 1 := by
    rw [take_succ_eq_append_getElem inside, count_append, here]
    rfl
  have grown : (params.snooping.take (port + 1)).count true ≤ (params.snooping.take other).count true :=
    (take_sublist_take_left before).count_le true
  simp only [localResponsePortId]
  omega

theorem localResponsePortId_inj (otherSnooping : params.isSnooping other = true) :
    params.localResponsePortId port = params.localResponsePortId other ↔ port = other := by
  constructor
  · intro same
    obtain before | equal | after := Nat.lt_trichotomy port other
    · have := localResponsePortId_lt snooping before
      omega
    · exact equal
    · have := localResponsePortId_lt otherSnooping after
      omega
  · rintro rfl
    rfl

theorem localResponsePortId_fits : params.localResponsePortId port < 256 := by
  have below := localResponsePortId_lt snooping (lt_of_isSnooping snooping)
  have all : params.localResponsePortId params.snooping.length = params.snooping.count true := by
    simp [localResponsePortId]
  have fits := params.fits
  omega

theorem portToMask_getLsbD {place : Nat} (fits : place < 256) :
    (params.portToMask port).getLsbD place = decide (place = params.localResponsePortId port) := by
  have inside := localResponsePortId_fits snooping
  simp only [portToMask, snooping, if_true, BitVec.getLsbD_shiftLeft, BitVec.getLsbD_one]
  by_cases same : place = params.localResponsePortId port
  · simp [same, inside]
  · simp [same, fits]
    omega

theorem has_iff (mask : SnoopMask) : mask &&& params.portToMask port ≠ 0 ↔ Has params mask port := by
  have inside := localResponsePortId_fits snooping
  constructor
  · intro some
    by_contra absent
    apply some
    apply BitVec.eq_of_getLsbD_eq
    intro place fits
    rw [BitVec.getLsbD_and, portToMask_getLsbD snooping fits]
    by_cases same : place = params.localResponsePortId port
    · rw [same, Bool.eq_false_iff.mpr absent]
      simp
    · simp [same]
  · intro present nothing
    have bit := congrArg (BitVec.getLsbD · (params.localResponsePortId port)) nothing
    simp only [BitVec.getLsbD_and, portToMask_getLsbD snooping inside] at bit
    rw [show mask.getLsbD (params.localResponsePortId port) = true from present] at bit
    simp at bit

end

theorem has_or (mask more : SnoopMask) : Has params (mask ||| more) port ↔ Has params mask port ∨ Has params more port := by
  simp [Has]

theorem not_has_zero : ¬ Has params 0 port := by
  simp [Has]

theorem has_portToMask (snooping : params.isSnooping port = true) (otherSnooping : params.isSnooping other = true) :
    Has params (params.portToMask port) other ↔ other = port := by
  rw [Has, portToMask_getLsbD snooping (localResponsePortId_fits otherSnooping), decide_eq_true_iff]
  exact localResponsePortId_inj otherSnooping snooping

theorem has_without (snooping : params.isSnooping port = true) (otherSnooping : params.isSnooping other = true)
    (mask : SnoopMask) : Has params (mask &&& ~~~params.portToMask port) other ↔ Has params mask other ∧ other ≠ port := by
  have fits := localResponsePortId_fits otherSnooping
  have bit := has_portToMask snooping otherSnooping
  simp only [Has] at bit ⊢
  rw [BitVec.getLsbD_and, BitVec.getLsbD_not, Bool.and_eq_true, Bool.and_eq_true, Ne, ← bit]
  simp [fits]

theorem portToMask_quiet (quiet : params.isSnooping port = false) : params.portToMask port = 0 := by
  simp [portToMask, quiet]

theorem mem_maskToPortList (snooping : params.isSnooping port = true) (mask : SnoopMask) :
    port ∈ params.maskToPortList mask ↔ Has params mask port := by
  rw [← has_iff snooping]
  simp [maskToPortList, SnoopFilterParams.cpuSidePorts, snooping, lt_of_isSnooping snooping]

end Masks

structure Outstanding where
  pkt : Packet
  port : PortID

def Outstanding.awaited (request : Outstanding) : Bool := request.pkt.needsResponse && !request.pkt.cacheResponding

/-- The filter, the ports that hold each line, the requests that wait for a response,
and the request that is between lookupRequest and finishRequest. -/
structure World where
  filter : SnoopFilter := {}
  holds : Set (Addr × PortID) := ∅
  inFlight : List Outstanding := []
  lookingUp : Option Outstanding := none

/-- One call of the filter. A response is given with the request that it answers. -/
inductive FilterOp where
  | lookupRequest (pkt : Packet) (port : PortID)
  | finishRequest (willRetry : Bool)
  | lookupSnoop (pkt : Packet)
  | updateSnoopResponse (pkt : Packet) (hasSharers : Bool) (rspPort reqPort : PortID) (request : Outstanding)
  | updateSnoopForward (pkt : Packet) (hasSharers : Bool)
  | updateResponse (pkt : Packet) (port : PortID) (request : Outstanding)

/-- Caches may lose any line at any time. They gain one only where they are said to, and
have lost those that they are said to lose. -/
structure Caches (before gained lost after : Set (Addr × PortID)) : Prop where
  gains : ∀ place, place ∈ after → place ∈ before ∨ place ∈ gained
  loses : ∀ place, place ∈ lost → place ∉ after

theorem Caches.fewer {before lost after : Set (Addr × PortID)} (caches : Caches before ∅ lost after) (place : Addr × PortID)
    (member : place ∈ after) : place ∈ before :=
  (caches.gains _ member).resolve_right (Set.notMem_empty _)

structure Answers (pkt : Packet) (port : PortID) (request : Outstanding) : Prop where
  req : pkt.req = request.pkt.req
  addr : pkt.addr = request.pkt.addr
  secure : pkt.isSecure = request.pkt.isSecure
  port : port = request.port

/-- What a response other than to cache maintenance gives the cache that asked for it. -/
def gainedBy (params : SnoopFilterParams) (pkt : Packet) (request : Outstanding) : Set (Addr × PortID) :=
  { place | place = (params.lineOf pkt, request.port) ∧ params.allocate request.pkt request.port = true ∧
    pkt.req.isCacheMaintenance = false }

/-- Calls of the filter as its crossbar makes them, with the caches above. -/
inductive Steps (params : SnoopFilterParams) : World → FilterOp → World → Prop
  | lookupRequest {world : World} {pkt : Packet} {port : PortID} {filter : SnoopFilter} {ports : List PortID} {latency : Nat}
      {holds : Set (Addr × PortID)} (idle : world.lookingUp = none)
      (ran : world.filter.lookupRequest params pkt port = .ok (filter, ports, latency))
      (caches : Caches world.holds ∅
        { place | place = (params.lineOf pkt, port) ∧ pkt.isEviction = true ∧ pkt.blockCached = false } holds) :
      Steps params world (.lookupRequest pkt port) { world with filter, holds, lookingUp := some ⟨pkt, port⟩ }
  | finishRequest {world : World} {willRetry : Bool} {request : Outstanding} {filter : SnoopFilter}
      {holds : Set (Addr × PortID)} (looking : world.lookingUp = some request)
      (ran : world.filter.finishRequest params willRetry request.pkt.addr request.pkt.isSecure = .ok filter)
      (caches : Caches world.holds ∅ ∅ holds) :
      Steps params world (.finishRequest willRetry) { world with
        filter
        holds
        lookingUp := none
        inFlight := if !willRetry && request.awaited then request :: world.inFlight else world.inFlight }
  | lookupSnoop {world : World} {pkt : Packet} {filter : SnoopFilter} {ports : List PortID} {latency : Nat}
      {holds : Set (Addr × PortID)} (ran : world.filter.lookupSnoop params pkt = .ok (filter, ports, latency))
      (caches : Caches world.holds ∅
        { place | place.1 = params.lineOf pkt ∧ pkt.isInvalidate = true ∧ place.2 ∈ ports } holds) :
      Steps params world (.lookupSnoop pkt) { world with filter, holds }
  | updateSnoopResponse {world : World} {pkt : Packet} {hasSharers : Bool} {rspPort reqPort : PortID} {request : Outstanding}
      {rest : List Outstanding} {filter : SnoopFilter} {holds : Set (Addr × PortID)}
      (paired : world.inFlight.Perm (request :: rest)) (answers : Answers pkt reqPort request)
      (ran : world.filter.updateSnoopResponse params pkt hasSharers rspPort reqPort = .ok filter)
      (caches : Caches world.holds (gainedBy params pkt request)
        { place | place.1 = params.lineOf pkt ∧ hasSharers = false ∧ place.2 ≠ reqPort } holds) :
      Steps params world (.updateSnoopResponse pkt hasSharers rspPort reqPort request)
        { world with filter, holds, inFlight := rest }
  | updateSnoopForward {world : World} {pkt : Packet} {hasSharers : Bool} {filter : SnoopFilter}
      {holds : Set (Addr × PortID)} (ran : world.filter.updateSnoopForward params pkt hasSharers = .ok filter)
      (caches : Caches world.holds ∅ { place | place.1 = params.lineOf pkt ∧ hasSharers = false } holds) :
      Steps params world (.updateSnoopForward pkt hasSharers) { world with filter, holds }
  | updateResponse {world : World} {pkt : Packet} {port : PortID} {request : Outstanding} {rest : List Outstanding}
      {filter : SnoopFilter} {holds : Set (Addr × PortID)} (paired : world.inFlight.Perm (request :: rest))
      (answers : Answers pkt port request) (ran : world.filter.updateResponse params pkt port = .ok filter)
      (caches : Caches world.holds (gainedBy params pkt request) { place | place = (params.lineOf pkt, port) ∧
        pkt.req.isCacheMaintenance = true ∧ pkt.isInvalidate = true } holds) :
      Steps params world (.updateResponse pkt port request) { world with filter, holds, inFlight := rest }

inductive Reached (params : SnoopFilterParams) (meets : World → FilterOp → Prop) : World → Prop
  | start : Reached params meets {}
  | step {world next : World} {op : FilterOp} (reached : Reached params meets world) (met : meets world op)
      (stepped : Steps params world op next) : Reached params meets next

/-- The filter knows of every port that holds a line, and has no entry that says nothing
but, until finishRequest, that of the request that is looked up. -/
structure Remembers (params : SnoopFilterParams) (world : World) : Prop where
  holder : ∀ line port, (line, port) ∈ world.holds → ∃ item, world.filter.find line = some item ∧
    (item.holder ||| item.requested) &&& params.portToMask port ≠ 0
  nonNull : ∀ line item, world.filter.find line = some item → item.requested ||| item.holder = 0 →
    ∃ request, world.lookingUp = some request ∧ line = params.lineOf request.pkt
  lookupRequest : ∀ pkt port filter ports latency,
    world.filter.lookupRequest params pkt port = .ok (filter, ports, latency) →
    ∀ other, (params.lineOf pkt, other) ∈ world.holds → other ≠ port → other ∈ ports
  lookupSnoop : ∀ pkt filter ports latency, world.filter.lookupSnoop params pkt = .ok (filter, ports, latency) →
    ∀ other, (params.lineOf pkt, other) ∈ world.holds → other ∈ ports

/-- A response through a port that snoops, to a request that did not come from a cache,
meets the bit of another request of that port. -/
def takesBit (params : SnoopFilterParams) (filter : SnoopFilter) (pkt : Packet) (request : Outstanding) : Bool :=
  !params.allocate request.pkt request.port && !pkt.req.isUncacheable && params.isSnooping request.port &&
    ((filter.find (params.lineOf pkt)).getD {}).requested &&& params.portToMask request.port != 0

def TakesBit (params : SnoopFilterParams) (world : World) : FilterOp → Prop
  | .updateSnoopResponse pkt _ _ _ request => takesBit params world.filter pkt request = true
  | .updateResponse pkt _ request => takesBit params world.filter pkt request = true
  | _ => False

section Tables
variable {filter : SnoopFilter} {line other : Addr} {item : SnoopItem}

def entry (filter : SnoopFilter) (line : Addr) : SnoopItem := (filter.find line).getD {}

theorem find_set (filter : SnoopFilter) (line other : Addr) (item : SnoopItem) :
    (filter.set line item).find other = if other = line then some item else filter.find other := by
  split
  next same =>
    subst same
    exact AList.lookup_insert _
  next apart => exact AList.lookup_insert_ne apart

theorem entry_set (filter : SnoopFilter) (line other : Addr) (item : SnoopItem) :
    entry (filter.set line item) other = if other = line then item else entry filter other := by
  unfold entry
  rw [find_set]
  split <;> rfl

theorem null_iff : item.requested ||| item.holder = 0 ↔ item = {} := by
  constructor
  · intro null
    obtain ⟨requested, holder⟩ := item
    obtain ⟨rfl, rfl⟩ := BitVec.or_eq_zero_iff.mp null
    rfl
  · rintro rfl
    rfl

theorem find_eraseIfNullEntry (filter : SnoopFilter) (line other : Addr) :
    (filter.eraseIfNullEntry line).find other =
      if other = line ∧ filter.find line = some {} then none else filter.find other := by
  unfold SnoopFilter.eraseIfNullEntry
  split
  next item found =>
    split
    next null =>
      rw [beq_iff_eq, null_iff] at null
      subst null
      by_cases same : other = line
      · subst same
        rw [if_pos ⟨rfl, found⟩]
        exact AList.lookup_erase _ _
      · rw [if_neg (fun both => same both.1)]
        exact AList.lookup_erase_ne same
    next some =>
      have full : filter.find line ≠ .some {} := by
        intro empty
        rw [found] at empty
        cases empty
        exact some rfl
      rw [if_neg (fun both => full both.2)]
  next absent => rw [absent, if_neg (fun both => nomatch both.2)]

theorem entry_eraseIfNullEntry (filter : SnoopFilter) (line other : Addr) :
    entry (filter.eraseIfNullEntry line) other = entry filter other := by
  unfold entry
  rw [find_eraseIfNullEntry]
  split
  next both =>
    obtain ⟨rfl, empty⟩ := both
    rw [empty]
    rfl
  · rfl

def Null (filter : SnoopFilter) (line : Addr) : Prop := filter.find line = some {}

theorem null_eraseIfNullEntry (null : Null (filter.eraseIfNullEntry line) other) : Null filter other ∧ other ≠ line := by
  unfold Null at null ⊢
  rw [find_eraseIfNullEntry] at null
  split at null
  · cases null
  next kept =>
    refine ⟨null, ?_⟩
    rintro rfl
    exact kept ⟨rfl, null⟩

theorem null_set (null : Null (filter.set line item) other) : other = line ∧ item = {} ∨ other ≠ line ∧ Null filter other := by
  unfold Null at null ⊢
  rw [find_set] at null
  split at null
  next same => exact .inl ⟨same, Option.some.inj null⟩
  next apart => exact .inr ⟨apart, null⟩

end Tables

def Outstanding.Tracks (params : SnoopFilterParams) (request : Outstanding) (line : Addr) (port : PortID) : Prop :=
  params.allocate request.pkt request.port = true ∧ params.lineOf request.pkt = line ∧ request.port = port

/-- An item accounts for the ports that hold a line and the requests for it that wait. -/
structure Covers (params : SnoopFilterParams) (item : SnoopItem) (line : Addr) (holds : Set (Addr × PortID))
    (waiting : List Outstanding) : Prop where
  held : ∀ port, (line, port) ∈ holds → params.isSnooping port = true ∧
    (Has params item.holder port ∨ Has params item.requested port ∧ ∀ request ∈ waiting, ¬ request.Tracks params line port)
  waits : ∀ request ∈ waiting, ∀ port, request.Tracks params line port → Has params item.requested port

section Covering
variable {params : SnoopFilterParams} {item : SnoopItem} {line : Addr} {holds after : Set (Addr × PortID)}
  {waiting rest : List Outstanding} {request : Outstanding}

theorem Outstanding.Tracks.snooping {port : PortID} (tracks : request.Tracks params line port) : params.isSnooping port = true := by
  obtain ⟨allocated, _, rfl⟩ := tracks
  simp only [SnoopFilterParams.allocate, Bool.and_eq_true] at allocated
  exact allocated.1.2

theorem Covers.mono (covers : Covers params item line holds waiting)
    (fewer : ∀ port, (line, port) ∈ after → (line, port) ∈ holds) (less : ∀ request ∈ rest, request ∈ waiting) :
    Covers params item line after rest := by
  refine ⟨fun port member => ?_, fun request member => covers.waits request (less request member)⟩
  obtain ⟨snooping, has⟩ := covers.held port (fewer port member)
  exact ⟨snooping, has.imp_right fun asked => ⟨asked.1, fun request member => asked.2 request (less request member)⟩⟩

def Once (params : SnoopFilterParams) (waiting : List Outstanding) : Prop :=
  waiting.Pairwise fun early late => ∀ line port, early.Tracks params line port → ¬ late.Tracks params line port

theorem Once.perm {waiting more : List Outstanding} (once : Once params waiting) (same : waiting.Perm more) : Once params more :=
  (same.pairwise_iff fun apart line port late early => apart line port early late).mp once

theorem Covers.answer (covers : Covers params item line holds (request :: rest)) (once : Once params (request :: rest))
    (gained : ∀ port, (line, port) ∈ after → (line, port) ∈ holds ∨ request.Tracks params line port) :
    Covers params item line after rest := by
  have alone := (pairwise_cons.mp once).1
  refine ⟨fun port member => ?_, fun other member => covers.waits other (mem_cons_of_mem _ member)⟩
  obtain old | tracks := gained port member
  · obtain ⟨snooping, has⟩ := covers.held port old
    exact ⟨snooping, has.imp_right fun asked => ⟨asked.1, fun other inside => asked.2 other (mem_cons_of_mem _ inside)⟩⟩
  · refine ⟨tracks.snooping, .inr ⟨covers.waits request mem_cons_self port tracks, ?_⟩⟩
    exact fun other member => alone other member line port tracks

end Covering

/-- What lookupRequest may make of an item for a packet that came from a cache. -/
inductive Requested (item : SnoopItem) (pkt : Packet) (mask : SnoopMask) : SnoopItem → Prop
  | asked (needs : pkt.needsResponse = true) (quiet : pkt.cacheResponding = false) (first : item.requested &&& mask = 0) :
      Requested item pkt mask { item with requested := item.requested ||| mask }
  | promised (needs : pkt.needsResponse = true) (responding : pkt.cacheResponding = true) : Requested item pkt mask item
  | evicted (silent : pkt.needsResponse = false) (gone : pkt.isEviction = true) (uncached : pkt.blockCached = false) :
      Requested item pkt mask { item with holder := item.holder &&& ~~~mask }
  | kept (silent : pkt.needsResponse = false) (cached : pkt.blockCached = true) : Requested item pkt mask item

theorem request_cases {item next : SnoopItem} {pkt : Packet} {mask : SnoopMask} (ran : item.request pkt mask = .ok next) :
    Requested item pkt mask next := by
  unfold SnoopItem.request at ran
  split at ran
  next needs =>
    split at ran
    next quiet =>
      obtain ⟨first, ran⟩ := of_panicIf ran
      cases ran
      exact .asked needs (by simpa using quiet) (by simpa using first)
    next responding =>
      obtain ⟨_, ran⟩ := of_panicIf ran
      cases ran
      exact .promised needs (by simpa using responding)
  next silent =>
    have silent := Bool.eq_false_iff.mpr silent
    obtain ⟨gone, ran⟩ := of_require ran
    obtain ⟨_, ran⟩ := of_panicIf ran
    cases uncached : pkt.blockCached with
    | false =>
      rw [uncached] at ran
      cases ran
      exact .evicted silent gone uncached
    | true =>
      rw [uncached] at ran
      cases ran
      exact .kept silent uncached

/-- A call that gives one line a new item, and may leave it without an entry. -/
structure Updates (before after : SnoopFilter) (line : Addr) (item : SnoopItem) : Prop where
  entry : ∀ other, entry after other = if other = line then item else entry before other
  null : ∀ other, Null after other → other ≠ line ∧ Null before other ∨ other = line ∧ item = {}

theorem updates_set (filter : SnoopFilter) (line : Addr) (item : SnoopItem) : Updates filter (filter.set line item) line item :=
  ⟨fun other => entry_set filter line other item, fun _ null => (null_set null).symm⟩

inductive LookedUp (params : SnoopFilterParams) (filter : SnoopFilter) (pkt : Packet) (port : PortID) :
    SnoopFilter → List PortID → Prop
  | absent (none : filter.find (params.lineOf pkt) = none) (foreign : params.allocate pkt port = false) :
      LookedUp params filter pkt port { filter with lookedUp := .none } []
  | present {next : SnoopFilter} {item : SnoopItem} (lookedUp : next.lookedUp = some (params.lineOf pkt))
      (retryItem : next.retryItem = entry filter (params.lineOf pkt)) (updates : Updates filter next (params.lineOf pkt) item)
      (made : params.allocate pkt port = false ∧ filter.find (params.lineOf pkt) = some item ∨
        params.allocate pkt port = true ∧ Requested (entry filter (params.lineOf pkt)) pkt (params.portToMask port) item) :
      LookedUp params filter pkt port next (params.maskToPortList (((entry filter (params.lineOf pkt)).holder |||
        (entry filter (params.lineOf pkt)).requested) &&& ~~~params.portToMask port))

variable {ports : List PortID}

theorem lookupRequest_cases {params : SnoopFilterParams} {filter next : SnoopFilter} {pkt : Packet} {port : PortID}
    {latency : Nat} (ran : filter.lookupRequest params pkt port = .ok (next, ports, latency)) :
    LookedUp params filter pkt port next ports := by
  unfold SnoopFilter.lookupRequest at ran
  dsimp only at ran
  split at ran
  next skipped =>
    cases ran
    simp only [Bool.and_eq_true, Bool.not_eq_true', Option.isNone_iff_eq_none] at skipped
    exact .absent skipped.1 skipped.2
  next looked =>
    split at ran
    next foreign =>
      have foreign : params.allocate pkt port = false := by simpa using foreign
      cases ran
      obtain ⟨item, found⟩ : ∃ item, filter.find (params.lineOf pkt) = some item :=
        Option.ne_none_iff_exists'.mp (by simpa [foreign] using looked)
      have same : entry filter (params.lineOf pkt) = item := by simp [entry, found]
      refine .present rfl rfl ?_ (.inl ⟨foreign, same ▸ found⟩)
      have updates := updates_set filter (params.lineOf pkt) (entry filter (params.lineOf pkt))
      exact ⟨updates.entry, updates.null⟩
    next allocated =>
      have allocated : params.allocate pkt port = true := by simpa using allocated
      obtain ⟨item, asked, ran⟩ := of_bind ran
      cases ran
      refine .present rfl rfl ⟨fun other => ?_, fun other null => ?_⟩ (.inr ⟨allocated, request_cases asked⟩)
      · have twice := entry_set (filter.set (params.lineOf pkt) (entry filter (params.lineOf pkt))) (params.lineOf pkt) other item
        have before := entry_set filter (params.lineOf pkt) other (entry filter (params.lineOf pkt))
        refine twice.trans ?_
        split
        · rfl
        next apart => rw [before, if_neg apart]
      · obtain here | ⟨apart, earlier⟩ :=
          @null_set (filter.set (params.lineOf pkt) (entry filter (params.lineOf pkt))) _ _ _ null
        · exact .inr here
        · obtain ⟨same, _⟩ | kept := null_set earlier
          · exact absurd same apart
          · exact .inl kept

/-- A call that gives one line a new item and leaves no entry there that says nothing. -/
structure Edits (before after : SnoopFilter) (line : Addr) (item : SnoopItem) : Prop where
  entry : ∀ other, entry after other = if other = line then item else entry before other
  null : ∀ other, Null after other → other ≠ line ∧ Null before other
  lookedUp : after.lookedUp = before.lookedUp
  retryItem : after.retryItem = before.retryItem

theorem eraseIfNullEntry_lookup (filter : SnoopFilter) (line : Addr) :
    (filter.eraseIfNullEntry line).lookedUp = filter.lookedUp ∧ (filter.eraseIfNullEntry line).retryItem = filter.retryItem := by
  unfold SnoopFilter.eraseIfNullEntry
  split
  · split <;> exact ⟨rfl, rfl⟩
  · exact ⟨rfl, rfl⟩

theorem edits_erase (filter : SnoopFilter) (line : Addr) (item : SnoopItem) :
    Edits filter ((filter.set line item).eraseIfNullEntry line) line item where
  entry other := by rw [entry_eraseIfNullEntry, entry_set]
  null other null := by
    obtain ⟨null, apart⟩ := null_eraseIfNullEntry null
    obtain ⟨same, _⟩ | kept := null_set null
    · exact absurd same apart
    · exact kept
  lookedUp := (eraseIfNullEntry_lookup _ _).1
  retryItem := (eraseIfNullEntry_lookup _ _).2

theorem edits_set {filter : SnoopFilter} {line : Addr} {item : SnoopItem} (full : item.requested ||| item.holder ≠ 0) :
    Edits filter (filter.set line item) line item where
  entry other := entry_set filter line other item
  null other null := by
    obtain ⟨_, empty⟩ | kept := null_set null
    · exact absurd (null_iff.mpr empty) full
    · exact kept
  lookedUp := rfl
  retryItem := rfl

section Calls
variable {params : SnoopFilterParams} {filter next : SnoopFilter} {pkt : Packet} {port : PortID}

theorem finishRequest_cases {willRetry isSecure : Bool} {addr : Addr}
    (ran : filter.finishRequest params willRetry addr isSecure = .ok next) :
    filter.lookedUp = none ∧ next = filter ∨ ∃ line, filter.lookedUp = some line ∧
      Edits filter next line (if willRetry then filter.retryItem else entry filter line) := by
  unfold SnoopFilter.finishRequest at ran
  split at ran
  next none =>
    cases ran
    exact .inl ⟨none, rfl⟩
  next line looked =>
    split at ran
    · cases ran
    next item found =>
      obtain ⟨_, ran⟩ := of_require ran
      cases ran
      have same : entry filter line = item := by simp [entry, found]
      refine .inr ⟨line, looked, ?_⟩
      rw [same]
      exact edits_erase _ _ _

theorem lookupSnoop_cases {latency : Nat} (ran : filter.lookupSnoop params pkt = .ok (next, ports, latency)) :
    (∀ port, params.isSnooping port = true → (port ∈ ports ↔
      Has params ((entry filter (params.lineOf pkt)).holder ||| (entry filter (params.lineOf pkt)).requested) port)) ∧
    (next = filter ∨ (entry filter (params.lineOf pkt)).requested = 0 ∧ pkt.isInvalidate = true ∧
      Edits filter next (params.lineOf pkt) { entry filter (params.lineOf pkt) with holder := 0 }) := by
  obtain ⟨_, ran⟩ := of_require ran
  dsimp only at ran
  split at ran
  next none =>
    obtain ⟨_, ran⟩ := of_panicIf ran
    cases ran
    have empty : entry filter (params.lineOf pkt) = {} := by simp [entry, none]
    refine ⟨fun port _ => ?_, .inl rfl⟩
    simp [empty, Has]
  next item found =>
    obtain ⟨_, ran⟩ := of_require ran
    have same : entry filter (params.lineOf pkt) = item := by simp [entry, found]
    rw [same]
    split at ran
    next cleared =>
      cases ran
      simp only [Bool.and_eq_true, beq_iff_eq] at cleared
      refine ⟨fun port snooping => mem_maskToPortList snooping _, .inr ⟨cleared.2, cleared.1, edits_erase _ _ _⟩⟩
    · cases ran
      exact ⟨fun port snooping => mem_maskToPortList snooping _, .inl rfl⟩

theorem or_portToMask_ne_zero (snooping : params.isSnooping port = true) (mask more : SnoopMask) :
    mask ||| (more ||| params.portToMask port) ≠ 0 := by
  intro nothing
  have has : Has params (mask ||| (more ||| params.portToMask port)) port :=
    (has_or _ _).mpr (.inr ((has_or _ _).mpr (.inr ((has_portToMask snooping snooping).mpr rfl))))
  rw [nothing] at has
  exact not_has_zero has

variable {hasSharers : Bool}

theorem updateSnoopResponse_cases {rspPort : PortID} (ran : filter.updateSnoopResponse params pkt hasSharers rspPort port = .ok next) :
    (pkt.req.isUncacheable || !params.isSnooping port) = true ∧ next = filter ∨
    pkt.req.isUncacheable = false ∧ params.isSnooping port = true ∧
      (entry filter (params.lineOf pkt)).requested &&& params.portToMask port ≠ 0 ∧
      Edits filter next (params.lineOf pkt)
        { requested := (entry filter (params.lineOf pkt)).requested &&& ~~~params.portToMask port
          holder := (if hasSharers then (entry filter (params.lineOf pkt)).holder else 0) ||| params.portToMask port } := by
  obtain ⟨_, ran⟩ := of_require ran
  obtain ⟨_, ran⟩ := of_require ran
  split at ran
  next skipped =>
    cases ran
    exact .inl ⟨skipped, rfl⟩
  next looked =>
    simp only [Bool.or_eq_true, Bool.not_eq_true', not_or, Bool.not_eq_true, Bool.not_eq_false] at looked
    obtain ⟨cacheable, snooping⟩ := looked
    obtain ⟨_, ran⟩ := of_panicIf ran
    obtain ⟨asked, ran⟩ := of_panicIf ran
    obtain ⟨_, ran⟩ := of_require ran
    obtain ⟨_, ran⟩ := of_require ran
    cases ran
    refine .inr ⟨cacheable, snooping, by simpa [entry] using asked, ?_⟩
    cases hasSharers with
    | true | false => exact edits_set (or_portToMask_ne_zero snooping _ _)

theorem updateSnoopForward_cases (ran : filter.updateSnoopForward params pkt hasSharers = .ok next) :
    next = filter ∨ hasSharers = false ∧
      Edits filter next (params.lineOf pkt) { entry filter (params.lineOf pkt) with holder := 0 } := by
  obtain ⟨_, ran⟩ := of_require ran
  obtain ⟨_, ran⟩ := of_require ran
  dsimp only at ran
  split at ran
  · cases ran
    exact .inl rfl
  next item found =>
    have same : entry filter (params.lineOf pkt) = item := by simp [entry, found]
    rw [same]
    cases hasSharers with
    | true =>
      cases ran
      exact .inl rfl
    | false =>
      cases ran
      exact .inr ⟨rfl, edits_erase _ _ _⟩

def heldAfter (pkt : Packet) (holder mask : SnoopMask) : SnoopMask :=
  if pkt.req.isCacheMaintenance then if pkt.isInvalidate then holder &&& ~~~mask else holder else holder ||| mask

theorem updateResponse_cases (ran : filter.updateResponse params pkt port = .ok next) :
    ((pkt.req.isUncacheable || !params.isSnooping port) = true ∨ entry filter (params.lineOf pkt) = {}) ∧ next = filter ∨
    pkt.req.isUncacheable = false ∧ params.isSnooping port = true ∧
      (entry filter (params.lineOf pkt)).requested &&& params.portToMask port ≠ 0 ∧
      Edits filter next (params.lineOf pkt)
        { requested := (entry filter (params.lineOf pkt)).requested &&& ~~~params.portToMask port
          holder := heldAfter pkt (entry filter (params.lineOf pkt)).holder (params.portToMask port) } := by
  obtain ⟨_, ran⟩ := of_require ran
  split at ran
  next skipped =>
    cases ran
    exact .inl ⟨.inl skipped, rfl⟩
  next looked =>
    simp only [Bool.or_eq_true, Bool.not_eq_true', not_or, Bool.not_eq_true, Bool.not_eq_false] at looked
    obtain ⟨cacheable, snooping⟩ := looked
    dsimp only at ran
    split at ran
    next none =>
      cases ran
      exact .inl ⟨.inr (by simp [entry, none]), rfl⟩
    next item found =>
      have same : entry filter (params.lineOf pkt) = item := by simp [entry, found]
      rw [same]
      obtain ⟨asked, ran⟩ := of_panicIf ran
      refine .inr ⟨cacheable, snooping, by simpa using asked, ?_⟩
      unfold heldAfter
      split at ran
      next maintenance =>
        cases ran
        rw [if_pos maintenance]
        exact edits_erase _ _ _
      next ordinary =>
        obtain ⟨_, ran⟩ := of_require ran
        cases ran
        rw [if_neg ordinary]
        exact edits_set (or_portToMask_ne_zero snooping _ _)

end Calls

def lookedUpOf (world : World) : List Outstanding := world.lookingUp.toList.filter Outstanding.awaited

/-- The entry saved for a retry still covers its holders. -/
structure Undoes (params : SnoopFilterParams) (world : World) (request : Outstanding) : Prop where
  lookedUp : world.filter.lookedUp = some (params.lineOf request.pkt)
  covers : Covers params world.filter.retryItem (params.lineOf request.pkt) world.holds world.inFlight

/-- The invariant: entries cover the holders of their lines and those who wait. -/
structure Inv (params : SnoopFilterParams) (world : World) : Prop where
  current : ∀ line, Covers params (entry world.filter line) line world.holds (lookedUpOf world ++ world.inFlight)
  once : Once params (lookedUpOf world ++ world.inFlight)
  undo : ∀ request, world.lookingUp = some request →
    (world.filter.lookedUp = none ∧ params.allocate request.pkt request.port = false) ∨ Undoes params world request
  nonNull : ∀ line, Null world.filter line → ∃ request, world.lookingUp = some request ∧ world.filter.lookedUp = some line

section Invariant
variable {params : SnoopFilterParams} {world : World} {filter : SnoopFilter} {holds : Set (Addr × PortID)} {request : Outstanding}
  {rest : List Outstanding} {line : Addr} {item : SnoopItem} {waiting : List Outstanding} {pkt : Packet} {port : PortID}

theorem inv_start : Inv params {} where
  current _ := ⟨fun _ member => absurd member (Set.notMem_empty _), fun _ member => absurd member not_mem_nil⟩
  once := List.Pairwise.nil
  undo _ looking := by cases looking
  nonNull line null := by
    cases null

theorem Inv.nonNull_edits (inv : Inv params world) (edits : Edits world.filter filter line item) :
    ∀ other, Null filter other → ∃ request, world.lookingUp = some request ∧ filter.lookedUp = some other := by
  intro other null
  rw [edits.lookedUp]
  exact inv.nonNull other (edits.null other null).2

theorem Inv.shrink (inv : Inv params world) (fewer : ∀ place, place ∈ holds → place ∈ world.holds)
    (made : filter = world.filter ∨ ∃ line item, Edits world.filter filter line item ∧
      Covers params item line holds (lookedUpOf world ++ world.inFlight)) :
    Inv params { world with filter, holds } := by
  have kept : ∀ item line waiting, Covers params item line world.holds waiting → Covers params item line holds waiting :=
    fun _ _ _ covers => covers.mono (fun _ => fewer _) fun _ member => member
  have undo : ∀ request, filter.lookedUp = world.filter.lookedUp → filter.retryItem = world.filter.retryItem →
      Undoes params world request → Undoes params { world with filter, holds } request := by
    intro request lookedUp retryItem undoes
    refine ⟨lookedUp.trans undoes.lookedUp, ?_⟩
    rw [retryItem]
    exact kept _ _ _ undoes.covers
  obtain rfl | ⟨line, item, edits, covers⟩ := made
  · exact ⟨fun line => kept _ _ _ (inv.current line), inv.once,
      fun request looking => (inv.undo request looking).imp_right (undo request rfl rfl), inv.nonNull⟩
  · refine ⟨fun other => ?_, inv.once, fun request looking => ?_, inv.nonNull_edits edits⟩
    · rw [edits.entry]
      split
      next same =>
        subst same
        exact covers
      · exact kept _ _ _ (inv.current other)
    · refine (inv.undo request looking).imp ?_ (undo request edits.lookedUp edits.retryItem)
      exact fun skipped => ⟨edits.lookedUp.trans skipped.1, skipped.2⟩

theorem Inv.answer (inv : Inv params world) (paired : world.inFlight.Perm (request :: rest))
    (gained : ∀ line port, (line, port) ∈ holds → (line, port) ∈ world.holds ∨ request.Tracks params line port)
    (made : filter = world.filter ∨ ∃ line item, Edits world.filter filter line item ∧
      Covers params item line holds (lookedUpOf world ++ rest)) :
    Inv params { world with filter, holds, inFlight := rest } := by
  have shuffled : (lookedUpOf world ++ world.inFlight).Perm (request :: (lookedUpOf world ++ rest)) :=
    (paired.append_left _).trans perm_middle
  have once := inv.once.perm shuffled
  have current : ∀ line, Covers params (entry world.filter line) line holds (lookedUpOf world ++ rest) := by
    intro line
    have covers := (inv.current line).mono (fun _ member => member) fun other member => shuffled.mem_iff.mpr member
    exact covers.answer once (gained line)
  have undo : ∀ looking, filter.lookedUp = world.filter.lookedUp → filter.retryItem = world.filter.retryItem →
      Undoes params world looking → Undoes params { world with filter, holds, inFlight := rest } looking := by
    intro looking lookedUp retryItem undoes
    refine ⟨lookedUp.trans undoes.lookedUp, ?_⟩
    rw [retryItem]
    have covers := undoes.covers.mono (fun _ member => member) fun other member => paired.mem_iff.mpr member
    refine covers.answer ?_ (gained _)
    exact List.Pairwise.sublist ((sublist_append_right _ _).cons_cons request) once
  have fewer : Once params (lookedUpOf world ++ rest) := (pairwise_cons.mp once).2
  obtain rfl | ⟨line, item, edits, covers⟩ := made
  · exact ⟨current, fewer, fun looking found => (inv.undo looking found).imp_right (undo looking rfl rfl), inv.nonNull⟩
  · refine ⟨fun other => ?_, fewer, fun looking found => ?_, inv.nonNull_edits edits⟩
    · rw [edits.entry]
      split
      next same =>
        subst same
        exact covers
      · exact current other
    · refine (inv.undo looking found).imp ?_ (undo looking edits.lookedUp edits.retryItem)
      exact fun skipped => ⟨edits.lookedUp.trans skipped.1, skipped.2⟩

theorem lookedUpOf_some (request : Outstanding) (looking : world.lookingUp = some request) :
    lookedUpOf world = if request.awaited then [request] else [] := by
  rw [lookedUpOf, looking]
  cases awaited : request.awaited <;> simp [awaited]

theorem not_tracks_of_foreign (foreign : params.allocate request.pkt request.port = false) (line : Addr) (port : PortID) :
    ¬ request.Tracks params line port := by
  intro tracks
  rw [Outstanding.Tracks, foreign] at tracks
  cases tracks.1

theorem Covers.add (covers : Covers params item line holds waiting) (quiet : ∀ port, ¬ request.Tracks params line port) :
    Covers params item line holds ((if request.awaited then [request] else []) ++ waiting) := by
  have split : ∀ other ∈ (if request.awaited then [request] else []) ++ waiting, other = request ∨ other ∈ waiting := by
    intro other member
    obtain here | there := mem_append.mp member
    · split at here
      · exact .inl (mem_singleton.mp here)
      · cases here
    · exact .inr there
  refine ⟨fun port member => ?_, fun other member port tracks => ?_⟩
  · obtain ⟨snooping, has⟩ := covers.held port member
    refine ⟨snooping, has.imp_right fun asked => ⟨asked.1, fun other inside tracks => ?_⟩⟩
    obtain rfl | there := split other inside
    · exact quiet port tracks
    · exact asked.2 other there tracks
  · obtain rfl | there := split other member
    · exact absurd tracks (quiet port)
    · exact covers.waits other there port tracks

theorem Covers.requested {next : SnoopItem} {before : Set (Addr × PortID)} (covers : Covers params item (params.lineOf pkt) before waiting)
    (snooping : params.isSnooping port = true) (asked : Requested item pkt (params.portToMask port) next)
    (caches : Caches before ∅
      { place | place = (params.lineOf pkt, port) ∧ pkt.isEviction = true ∧ pkt.blockCached = false } holds) :
    Covers params next (params.lineOf pkt) holds
      ((if (Outstanding.mk pkt port).awaited then [Outstanding.mk pkt port] else []) ++ waiting) := by
  have covers := covers.mono (fun _ => caches.fewer _) fun _ member => member
  cases asked with
  | asked needs quiet first =>
    have awaited : (Outstanding.mk pkt port).awaited = true := by simp [Outstanding.awaited, needs, quiet]
    rw [awaited, if_pos rfl]
    have free : ¬ Has params item.requested port := fun has => (has_iff snooping _).mpr has first
    refine ⟨fun other member => ?_, fun request member other tracks => ?_⟩
    · obtain ⟨otherSnooping, has⟩ := covers.held other member
      refine ⟨otherSnooping, has.imp_right fun earlier => ⟨(has_or _ _).mpr (.inl earlier.1), fun request inside tracks => ?_⟩⟩
      obtain rfl | there := mem_cons.mp inside
      · obtain ⟨_, _, rfl⟩ := tracks
        exact free earlier.1
      · exact earlier.2 request there tracks
    · obtain rfl | there := mem_cons.mp member
      · obtain ⟨_, _, rfl⟩ := tracks
        exact (has_or _ _).mpr (.inr ((has_portToMask snooping snooping).mpr rfl))
      · exact (has_or _ _).mpr (.inl (covers.waits request there other tracks))
  | promised _ responding =>
    have answered : (Outstanding.mk pkt port).awaited = false := by simp [Outstanding.awaited, responding]
    simpa [answered] using covers
  | kept silent =>
    have answered : (Outstanding.mk pkt port).awaited = false := by simp [Outstanding.awaited, silent]
    simpa [answered] using covers
  | evicted silent gone uncached =>
    have answered : (Outstanding.mk pkt port).awaited = false := by simp [Outstanding.awaited, silent]
    simp only [answered, Bool.false_eq_true, if_false, nil_append]
    refine ⟨fun other member => ?_, covers.waits⟩
    obtain ⟨otherSnooping, has⟩ := covers.held other member
    refine ⟨otherSnooping, has.imp_left fun held => (has_without snooping otherSnooping _).mpr ⟨held, ?_⟩⟩
    rintro rfl
    exact caches.loses _ ⟨rfl, gone, uncached⟩ member

section

variable (inv : Inv params world)
include inv

theorem inv_lookupRequest (idle : world.lookingUp = none) (looked : LookedUp params world.filter pkt port filter ports)
    (caches : Caches world.holds ∅
      { place | place = (params.lineOf pkt, port) ∧ pkt.isEviction = true ∧ pkt.blockCached = false } holds) :
    Inv params { world with filter, holds, lookingUp := some ⟨pkt, port⟩ } := by
  have nobody : lookedUpOf world = [] := by simp [lookedUpOf, idle]
  have somebody := @lookedUpOf_some { world with filter, holds, lookingUp := some ⟨pkt, port⟩ } ⟨pkt, port⟩ rfl
  have full : ∀ line, ¬ Null world.filter line := by
    intro line null
    obtain ⟨_, looking, _⟩ := inv.nonNull line null
    rw [idle] at looking
    cases looking
  have once := inv.once
  have before := inv.current
  rw [nobody, nil_append] at once
  simp only [nobody, nil_append] at before
  have current : ∀ line, Covers params (entry world.filter line) line holds world.inFlight :=
    fun line => (before line).mono (fun _ => caches.fewer _) fun _ member => member
  have quiet := @not_tracks_of_foreign params ⟨pkt, port⟩
  have foreignOnce : params.allocate pkt port = false →
      Once params ((if (Outstanding.mk pkt port).awaited then [Outstanding.mk pkt port] else []) ++ world.inFlight) := by
    intro foreign
    split
    · refine pairwise_cons.mpr ⟨fun other _ line place tracks => ?_, once⟩
      exact absurd tracks (quiet foreign line place)
    · exact once
  cases looked with
  | absent _ foreign =>
    refine ⟨?_, ?_, ?_, fun line null => absurd null (full line)⟩
    · rw [somebody]
      exact fun line => (current line).add (quiet foreign line)
    · rw [somebody]
      exact foreignOnce foreign
    · rintro _ ⟨⟩
      exact .inl ⟨rfl, foreign⟩
  | @present _ item lookedUp retryItem updates made =>
    refine ⟨?_, ?_, ?_, ?_⟩
    · rw [somebody]
      intro line
      rw [updates.entry]
      split
      next same =>
        subst same
        obtain ⟨foreign, found⟩ | ⟨allocated, asked⟩ := made
        · have same : entry world.filter (params.lineOf pkt) = item := by simp [entry, found]
          rw [← same]
          exact (current _).add (quiet foreign _)
        · simp only [SnoopFilterParams.allocate, Bool.and_eq_true] at allocated
          exact (before _).requested allocated.1.2 asked caches
      next apart =>
        exact (current line).add fun place tracks => apart tracks.2.1.symm
    · rw [somebody]
      obtain ⟨foreign, _⟩ | ⟨allocated, asked⟩ := made
      · exact foreignOnce foreign
      · simp only [SnoopFilterParams.allocate, Bool.and_eq_true] at allocated
        cases asked with
        | asked _ _ first =>
          split
          · refine pairwise_cons.mpr ⟨fun other member line place tracks also => ?_, once⟩
            obtain ⟨_, rfl, rfl⟩ := tracks
            exact (has_iff allocated.1.2 _).mpr ((before _).waits other member _ also) first
          · exact once
        | promised _ responding => simpa [Outstanding.awaited, responding] using once
        | kept silent | evicted silent => simpa [Outstanding.awaited, silent] using once
    · rintro _ ⟨⟩
      refine .inr ⟨lookedUp, ?_⟩
      rw [retryItem]
      exact current _
    · intro line null
      obtain ⟨_, earlier⟩ | ⟨same, _⟩ := updates.null line null
      · exact absurd earlier (full line)
      · exact ⟨⟨pkt, port⟩, rfl, same ▸ lookedUp⟩

theorem inv_finishRequest {willRetry isSecure : Bool} {addr : Addr} (looking : world.lookingUp = some request) (ran : world.filter.finishRequest params willRetry addr isSecure = .ok filter)
    (caches : Caches world.holds ∅ ∅ holds) :
    Inv params { world with
      filter
      holds
      lookingUp := none
      inFlight := if !willRetry && request.awaited then request :: world.inFlight else world.inFlight } := by
  have waiting := lookedUpOf_some request looking
  have less : (if !willRetry && request.awaited then request :: world.inFlight else world.inFlight).Sublist
      (lookedUpOf world ++ world.inFlight) := by
    rw [waiting]
    cases willRetry <;> cases request.awaited <;> simp
  have current : ∀ line, Covers params (entry world.filter line) line holds
      (if !willRetry && request.awaited then request :: world.inFlight else world.inFlight) :=
    fun line => (inv.current line).mono (fun _ => caches.fewer _) fun _ member => less.subset member
  have once : Once params (if !willRetry && request.awaited then request :: world.inFlight else world.inFlight) :=
    List.Pairwise.sublist less inv.once
  have noneLooking : ∀ {goal : Outstanding → Prop} request, (none : Option Outstanding) = some request → goal request := by
    intro goal request impossible
    cases impossible
  obtain ⟨skipped, rfl⟩ | ⟨line, looked, edits⟩ := finishRequest_cases ran
  · refine ⟨current, once, noneLooking, fun line null => ?_⟩
    obtain ⟨_, _, lookedUp⟩ := inv.nonNull line null
    rw [skipped] at lookedUp
    cases lookedUp
  · refine ⟨fun other => ?_, once, noneLooking, fun other null => ?_⟩
    · change Covers params (entry filter other) other holds _
      rw [edits.entry]
      split
      next same =>
        subst same
        cases willRetry with
        | false => exact current other
        | true =>
          obtain ⟨none, _⟩ | undoes := inv.undo request looking
          · rw [none] at looked
            cases looked
          · have here := Option.some.inj (looked.symm.trans undoes.lookedUp)
            rw [here]
            exact undoes.covers.mono (fun _ => caches.fewer _) fun _ member => member
      · exact current other
    · obtain ⟨apart, null⟩ := edits.null other null
      obtain ⟨_, _, lookedUp⟩ := inv.nonNull other null
      exact absurd (Option.some.inj (lookedUp.symm.trans looked)) apart

theorem inv_lookupSnoop {latency : Nat} (ran : world.filter.lookupSnoop params pkt = .ok (filter, ports, latency))
    (caches : Caches world.holds ∅
      { place | place.1 = params.lineOf pkt ∧ pkt.isInvalidate = true ∧ place.2 ∈ ports } holds) :
    Inv params { world with filter, holds } := by
  obtain ⟨snooped, made⟩ := lookupSnoop_cases ran
  refine inv.shrink caches.fewer (made.imp_right fun ⟨_, invalidating, edits⟩ => ⟨_, _, edits, ?_⟩)
  have covers := inv.current (params.lineOf pkt)
  refine ⟨fun port member => ?_, covers.waits⟩
  -- every port that held the line was snooped, and has dropped it
  obtain ⟨snooping, has⟩ := covers.held port (caches.fewer _ member)
  refine absurd member (caches.loses _ ⟨rfl, invalidating, (snooped port snooping).mpr ?_⟩)
  exact (has_or _ _).mpr (has.imp_right And.left)

theorem inv_updateSnoopForward (ran : world.filter.updateSnoopForward params pkt hasSharers = .ok filter)
    (caches : Caches world.holds ∅ { place | place.1 = params.lineOf pkt ∧ hasSharers = false } holds) :
    Inv params { world with filter, holds } := by
  refine inv.shrink caches.fewer ((updateSnoopForward_cases ran).imp_right fun ⟨unshared, edits⟩ => ⟨_, _, edits, ?_⟩)
  refine ⟨fun _ member => absurd member (caches.loses _ ⟨rfl, unshared⟩), (inv.current (params.lineOf pkt)).waits⟩

end

section

variable (answers : Answers pkt port request)
include answers

theorem Answers.lineOf : params.lineOf pkt = params.lineOf request.pkt := by
  simp [SnoopFilterParams.lineOf, answers.addr, answers.secure]

theorem Answers.tracks (allocated : params.allocate request.pkt request.port = true) : request.Tracks params (params.lineOf pkt) port :=
  ⟨allocated, answers.lineOf.symm, answers.port.symm⟩

theorem gained_tracks {lost : Set (Addr × PortID)} (caches : Caches world.holds (gainedBy params pkt request) lost holds) :
    ∀ line place, (line, place) ∈ holds → (line, place) ∈ world.holds ∨ request.Tracks params line place := by
  intro line place member
  refine (caches.gains _ member).imp_right fun gained => ?_
  obtain ⟨same, allocated, _⟩ := gained
  obtain ⟨rfl, rfl⟩ := Prod.mk.inj same
  exact ⟨allocated, answers.lineOf.symm, rfl⟩

theorem tracks_of_bit (untaken : takesBit params world.filter pkt request = false) (cacheable : pkt.req.isUncacheable = false)
    (snooping : params.isSnooping port = true)
    (bit : (entry world.filter (params.lineOf pkt)).requested &&& params.portToMask port ≠ 0) :
    request.Tracks params (params.lineOf pkt) port := by
  apply answers.tracks
  by_contra foreign
  have taken : takesBit params world.filter pkt request = true := by
    rw [answers.port] at bit snooping
    simp only [takesBit, Bool.eq_false_iff.mpr foreign, cacheable, snooping, Bool.not_false, Bool.true_and]
    exact bne_iff_ne.mpr bit
  rw [taken] at untaken
  cases untaken

end

theorem Covers.responded {holder : SnoopMask} {before : Set (Addr × PortID)}
    (covers : Covers params item (params.lineOf pkt) before (request :: waiting)) (once : Once params (request :: waiting))
    (tracks : request.Tracks params (params.lineOf pkt) port) (here : (params.lineOf pkt, port) ∈ holds → Has params holder port)
    (there : ∀ other, other ≠ port → (params.lineOf pkt, other) ∈ holds → (params.lineOf pkt, other) ∈ before ∧
      (params.isSnooping other = true → Has params item.holder other → Has params holder other)) :
    Covers params { requested := item.requested &&& ~~~params.portToMask port, holder } (params.lineOf pkt) holds waiting := by
  have snooping := tracks.snooping
  have alone := (pairwise_cons.mp once).1
  refine ⟨fun other member => ?_, fun another member other others => ?_⟩
  · by_cases same : other = port
    · subst same
      exact ⟨snooping, .inl (here member)⟩
    · obtain ⟨old, kept⟩ := there other same member
      obtain ⟨otherSnooping, has⟩ := covers.held other old
      refine ⟨otherSnooping, has.imp (kept otherSnooping) fun asked => ⟨?_, fun another inside => ?_⟩⟩
      · exact (has_without snooping otherSnooping _).mpr ⟨asked.1, same⟩
      · exact asked.2 another (mem_cons_of_mem _ inside)
  · have apart : other ≠ port := by
      rintro rfl
      exact alone another member _ _ tracks others
    exact (has_without snooping others.snooping _).mpr ⟨covers.waits another (mem_cons_of_mem _ member) other others, apart⟩

section

variable (inv : Inv params world)
include inv

theorem Inv.awaited (paired : world.inFlight.Perm (request :: rest)) (line : Addr) :
    Covers params (entry world.filter line) line world.holds (request :: (lookedUpOf world ++ rest)) ∧
      Once params (request :: (lookedUpOf world ++ rest)) := by
  have shuffled : (lookedUpOf world ++ world.inFlight).Perm (request :: (lookedUpOf world ++ rest)) :=
    (paired.append_left _).trans perm_middle
  exact ⟨(inv.current line).mono (fun _ member => member) fun _ member => shuffled.mem_iff.mpr member, inv.once.perm shuffled⟩

theorem inv_updateSnoopResponse {rspPort reqPort : PortID} (paired : world.inFlight.Perm (request :: rest)) (answers : Answers pkt reqPort request)
    (untaken : takesBit params world.filter pkt request = false)
    (ran : world.filter.updateSnoopResponse params pkt hasSharers rspPort reqPort = .ok filter)
    (caches : Caches world.holds (gainedBy params pkt request)
      { place | place.1 = params.lineOf pkt ∧ hasSharers = false ∧ place.2 ≠ reqPort } holds) :
    Inv params { world with filter, holds, inFlight := rest } := by
  refine inv.answer paired (gained_tracks answers caches) ?_
  obtain ⟨_, same⟩ | ⟨cacheable, snooping, bit, edits⟩ := updateSnoopResponse_cases ran
  · exact .inl same
  · refine .inr ⟨_, _, edits, ?_⟩
    obtain ⟨covers, once⟩ := inv.awaited paired (params.lineOf pkt)
    have tracks := tracks_of_bit answers untaken cacheable snooping bit
    refine covers.responded once tracks (fun _ => ?_) fun other apart member => ⟨?_, fun _ held => ?_⟩
    · exact (has_or _ _).mpr (.inr ((has_portToMask snooping snooping).mpr rfl))
    · obtain old | gained := gained_tracks answers caches _ _ member
      · exact old
      · exact absurd (gained.2.2.symm.trans tracks.2.2) apart
    · cases hasSharers with
      | true => exact (has_or _ _).mpr (.inl held)
      | false => exact absurd member (caches.loses _ ⟨rfl, rfl, apart⟩)

theorem inv_updateResponse (paired : world.inFlight.Perm (request :: rest)) (answers : Answers pkt port request)
    (untaken : takesBit params world.filter pkt request = false) (ran : world.filter.updateResponse params pkt port = .ok filter)
    (caches : Caches world.holds (gainedBy params pkt request) { place | place = (params.lineOf pkt, port) ∧
      pkt.req.isCacheMaintenance = true ∧ pkt.isInvalidate = true } holds) :
    Inv params { world with filter, holds, inFlight := rest } := by
  refine inv.answer paired (gained_tracks answers caches) ?_
  obtain ⟨_, same⟩ | ⟨cacheable, snooping, bit, edits⟩ := updateResponse_cases ran
  · exact .inl same
  · refine .inr ⟨_, _, edits, ?_⟩
    obtain ⟨covers, once⟩ := inv.awaited paired (params.lineOf pkt)
    have tracks := tracks_of_bit answers untaken cacheable snooping bit
    refine covers.responded once tracks (fun member => ?_) fun other apart member => ⟨?_, ?_⟩
    · unfold heldAfter
      split
      next maintenance =>
        split
        next invalidating => exact absurd member (caches.loses _ ⟨rfl, maintenance, invalidating⟩)
        · -- a port that waits for maintenance of a line it holds is among its holders
          have old : (params.lineOf pkt, port) ∈ world.holds := by
            refine (caches.gains _ member).resolve_right fun gained => ?_
            exact absurd (gained.2.2.symm.trans maintenance) Bool.false_ne_true
          obtain ⟨_, held | asked⟩ := covers.held port old
          · exact held
          · exact absurd tracks (asked.2 request mem_cons_self)
      · exact (has_or _ _).mpr (.inr ((has_portToMask snooping snooping).mpr rfl))
    · obtain old | gained := gained_tracks answers caches _ _ member
      · exact old
      · exact absurd (gained.2.2.symm.trans tracks.2.2) apart
    · intro otherSnooping held
      unfold heldAfter
      split
      · split
        · exact (has_without snooping otherSnooping _).mpr ⟨held, apart⟩
        · exact held
      · exact (has_or _ _).mpr (.inl held)

theorem Inv.step {next : World} {op : FilterOp} (untaken : ¬ TakesBit params world op)
    (stepped : Steps params world op next) : Inv params next := by
  cases stepped with
  | lookupRequest idle ran caches => exact inv_lookupRequest inv idle (lookupRequest_cases ran) caches
  | finishRequest looking ran caches => exact inv_finishRequest inv looking ran caches
  | lookupSnoop ran caches => exact inv_lookupSnoop inv ran caches
  | updateSnoopResponse paired answers ran caches =>
    exact inv_updateSnoopResponse inv paired answers (Bool.eq_false_iff.mpr untaken) ran caches
  | updateSnoopForward ran caches => exact inv_updateSnoopForward inv ran caches
  | updateResponse paired answers ran caches =>
    exact inv_updateResponse inv paired answers (Bool.eq_false_iff.mpr untaken) ran caches

theorem Inv.interested (held : (line, port) ∈ world.holds) : params.isSnooping port = true ∧
      Has params ((entry world.filter line).holder ||| (entry world.filter line).requested) port := by
  obtain ⟨snooping, has⟩ := (inv.current line).held port held
  exact ⟨snooping, (has_or _ _).mpr (has.imp_right And.left)⟩

theorem Inv.remembers : Remembers params world where
  holder line port held := by
    obtain ⟨snooping, has⟩ := inv.interested held
    cases found : world.filter.find line with
    | none =>
      have empty : entry world.filter line = {} := by simp [entry, found]
      rw [empty] at has
      exact absurd has not_has_zero
    | some item =>
      have same : entry world.filter line = item := by simp [entry, found]
      rw [same] at has
      exact ⟨item, rfl, (has_iff snooping _).mpr has⟩
  nonNull line item found empty := by
    have null : Null world.filter line := by rw [Null, found, null_iff.mp empty]
    obtain ⟨request, looking, lookedUp⟩ := inv.nonNull line null
    refine ⟨request, looking, ?_⟩
    obtain ⟨none, _⟩ | undoes := inv.undo request looking
    · rw [none] at lookedUp
      cases lookedUp
    · exact Option.some.inj (lookedUp.symm.trans undoes.lookedUp)
  lookupRequest pkt port filter ports latency ran other held apart := by
    obtain ⟨snooping, has⟩ := inv.interested held
    cases lookupRequest_cases ran with
    | absent none =>
      have empty : entry world.filter (params.lineOf pkt) = {} := by simp [entry, none]
      rw [empty] at has
      exact absurd has not_has_zero
    | present =>
      rw [mem_maskToPortList snooping]
      cases quiet : params.isSnooping port with
      | true => exact (has_without quiet snooping _).mpr ⟨has, apart⟩
      | false =>
        rw [portToMask_quiet quiet, show ~~~(0 : SnoopMask) = BitVec.allOnes 256 from BitVec.not_zero, BitVec.and_allOnes]
        exact has
  lookupSnoop pkt filter ports latency ran other held := by
    obtain ⟨snooping, has⟩ := inv.interested held
    exact ((lookupSnoop_cases ran).1 other snooping).mpr has

end

end Invariant

/-- Where no response to a request that did not come from a cache takes the bit of
another request, the filter forgets no port that holds a line. -/
theorem filter_remembers {params : SnoopFilterParams} {world : World}
    (reached : Reached params (fun world op => ¬ TakesBit params world op) world) : Remembers params world := by
  have inv : Inv params world := by
    induction reached with
    | start => exact inv_start
    | step _ untaken stepped ih => exact ih.step untaken stepped
  exact inv.remembers

def onePort : SnoopFilterParams where
  linesize := 64
  lookupLatency := 1
  maxEntryCount := 131072
  snooping := [true]
  fits := by decide

def lineRead (cmd : MemCmd) (req : Nat) : Packet := .ofRequest { id := req, paddr := 0x1000, size := 64, flags := 0 } cmd []

theorem caches_empty (before gained lost : Set (Addr × PortID)) : Caches before gained lost ∅ :=
  ⟨fun _ member => absurd member (Set.notMem_empty _), fun _ _ => Set.notMem_empty _⟩

theorem caches_fill (before : Set (Addr × PortID)) : Caches before
    (gainedBy onePort (lineRead .readResp 1) ⟨lineRead .readSharedReq 1, 0⟩)
    { place | place = (onePort.lineOf (lineRead .readResp 1), 0) ∧
      (lineRead .readResp 1).req.isCacheMaintenance = true ∧ (lineRead .readResp 1).isInvalidate = true } {(0x1000, 0)} where
  gains place member := by
    cases Set.mem_singleton_iff.mp member
    exact .inr ⟨rfl, rfl, rfl⟩
  loses place lost := by
    obtain ⟨_, impossible, _⟩ := lost
    cases impossible

def oneEntry (item : SnoopItem) : SnoopFilter := { cachedLocations := .singleton 0x1000 item, lookedUp := some 0x1000 }

section Reading
variable {inFlight : List Outstanding}

theorem cache_asks : Steps onePort { inFlight } (.lookupRequest (lineRead .readSharedReq 1) 0)
    { filter := oneEntry { requested := 1 }, inFlight, lookingUp := some ⟨lineRead .readSharedReq 1, 0⟩ } := by
  have ran : SnoopFilter.lookupRequest onePort {} (lineRead .readSharedReq 1) 0 = .ok (oneEntry { requested := 1 }, [], 1) := by rfl
  exact .lookupRequest rfl ran (caches_empty _ _ _)

theorem cache_sent : Steps onePort
    { filter := oneEntry { requested := 1 }, inFlight, lookingUp := some ⟨lineRead .readSharedReq 1, 0⟩ } (.finishRequest false)
    { filter := oneEntry { requested := 1 }, inFlight := ⟨lineRead .readSharedReq 1, 0⟩ :: inFlight } := by
  have ran : (oneEntry { requested := 1 }).finishRequest onePort false 0x1000 false = .ok (oneEntry { requested := 1 }) := by rfl
  exact @Steps.finishRequest onePort _ false ⟨lineRead .readSharedReq 1, 0⟩ _ _ rfl ran (caches_empty _ _ _)

end Reading

theorem filter_remembers_fill : ∃ world : World, (0x1000, 0) ∈ world.holds ∧ Remembers onePort world := by
  have filled : Steps onePort { filter := oneEntry { requested := 1 }, inFlight := [⟨lineRead .readSharedReq 1, 0⟩] }
      (.updateResponse (lineRead .readResp 1) 0 ⟨lineRead .readSharedReq 1, 0⟩)
      { filter := oneEntry { holder := 1 }, holds := {(0x1000, 0)} } :=
    .updateResponse (.refl _) ⟨rfl, rfl, rfl, rfl⟩ rfl (caches_fill _)
  have untaken : takesBit onePort (oneEntry { requested := 1 }) (lineRead .readResp 1) ⟨lineRead .readSharedReq 1, 0⟩ = false := rfl
  refine ⟨_, Set.mem_singleton _, filter_remembers (.step (.step (.step .start id cache_asks) id cache_sent) ?_ filled)⟩
  exact Bool.eq_false_iff.mp untaken

/-- The page walker above a port reads a line and then so does a cache there. The
response to the walker takes the bit of the cache, a snoop clears the entry, and the
cache is given a line that the filter does not know of. -/
theorem filter_forgets : ∃ world, Reached onePort (fun _ _ => True) world ∧ ¬ Remembers onePort world := by
  have walkerAsks : Steps onePort {} (.lookupRequest (lineRead .readReq 2) 0) { lookingUp := some ⟨lineRead .readReq 2, 0⟩ } :=
    .lookupRequest rfl rfl (caches_empty _ _ _)
  have walkerSent : Steps onePort { lookingUp := some ⟨lineRead .readReq 2, 0⟩ } (.finishRequest false)
      { inFlight := [⟨lineRead .readReq 2, 0⟩] } :=
    @Steps.finishRequest onePort _ false ⟨lineRead .readReq 2, 0⟩ _ _ rfl rfl (caches_empty _ _ _)
  have taken : Steps onePort
      { filter := oneEntry { requested := 1 }, inFlight := [⟨lineRead .readSharedReq 1, 0⟩, ⟨lineRead .readReq 2, 0⟩] }
      (.updateResponse (lineRead .readResp 2) 0 ⟨lineRead .readReq 2, 0⟩)
      { filter := oneEntry { holder := 1 }, inFlight := [⟨lineRead .readSharedReq 1, 0⟩] } :=
    .updateResponse (.swap _ _ _) ⟨rfl, rfl, rfl, rfl⟩ rfl (caches_empty _ _ _)
  have snooped : Steps onePort { filter := oneEntry { holder := 1 }, inFlight := [⟨lineRead .readSharedReq 1, 0⟩] }
      (.lookupSnoop (lineRead .readExReq 3))
      { filter := { lookedUp := some 0x1000 }, inFlight := [⟨lineRead .readSharedReq 1, 0⟩] } :=
    .lookupSnoop rfl (caches_empty _ _ _)
  have filled : Steps onePort { filter := { lookedUp := some 0x1000 }, inFlight := [⟨lineRead .readSharedReq 1, 0⟩] }
      (.updateResponse (lineRead .readResp 1) 0 ⟨lineRead .readSharedReq 1, 0⟩)
      { filter := { lookedUp := some 0x1000 }, holds := {(0x1000, 0)} } :=
    .updateResponse (.refl _) ⟨rfl, rfl, rfl, rfl⟩ rfl (caches_fill _)
  have walked : Reached onePort (fun _ _ => True) { inFlight := [⟨lineRead .readReq 2, 0⟩] } :=
    .step (.step .start trivial walkerAsks) trivial walkerSent
  have asked := Reached.step (Reached.step walked trivial cache_asks) trivial cache_sent
  refine ⟨_, .step (.step (.step asked trivial taken) trivial snooped) trivial filled, fun remembers => ?_⟩
  obtain ⟨_, found, _⟩ := remembers.holder 0x1000 0 (Set.mem_singleton _)
  cases found

end ImcGem5.Mem.Proofs.SnoopFilter
