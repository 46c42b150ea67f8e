import ImcGem5.Proofs.Controller
import ImcGem5.Proofs.Gather

/-! Functional accesses while responses wait in the queue. A functional read takes
the bytes of the store and then lets the queued responses overwrite them, in the
order of the queue, until the block is covered; a functional write goes through to every queued
response of its security domain. -/

namespace ImcGem5.Mem.Proofs.Functional
open Lib Gather List AbstractMemory Packet
open Bool (and_eq_true false_eq_true)
open Option (map_some getD_some)

def byteAt (pkt : Packet) (address : Nat) : Byte := pkt.data.getD (address - pkt.addr.toNat) 0

def covers (pkt : Packet) (address : Nat) : Bool :=
  decide (pkt.addr.toNat ≤ address) && decide (address < pkt.addr.toNat + pkt.size)

def holds (pkt : Packet) (address : Nat) (deferred : DeferredPacket) : Bool :=
  deferred.pkt.hasData && (deferred.pkt.isSecure == pkt.isSecure && covers deferred.pkt address)

def missing (pkt : Packet) : List Nat :=
  (span pkt.addr pkt.size).filter fun address => !pkt.bytesValid.getD (address - pkt.addr.toNat) false

def consulted (pkt : Packet) : List Nat → List DeferredPacket → List DeferredPacket
  | [], _ => []
  | _, [] => []
  | address :: others, deferred :: rest =>
    deferred :: consulted pkt ((address :: others).filter fun wanted => !holds pkt wanted deferred) rest

def latest (pkt : Packet) (queue : List DeferredPacket) (address : Nat) : Option DeferredPacket :=
  (consulted pkt (missing pkt) queue).reverse.find? (holds pkt address)

def writes (pkt : Packet) (address : Nat) : Bool :=
  covers pkt address && (!pkt.isMaskedWrite || pkt.req.byteEnable.getD (address - pkt.addr.toNat) false)

def written (pkt : Packet) (address : Nat) (old : Byte) : Byte := if writes pkt address then byteAt pkt address else old

/-- What a functional write should leave: its bytes in the store and in the
responses that wait with data, and nothing else. -/
structure WriteSeen (ctrl next : MemCtrl) (pkt : Packet) : Prop where
  store : ∀ address, next.mem.pmem address = written pkt address (ctrl.mem.pmem address)
  queue : ∀ (position : Nat) (deferred : DeferredPacket), ctrl.packetQueue[position]? = some deferred →
    deferred.pkt.hasData = true → ∃ data : List Byte,
      next.packetQueue[position]? = some { deferred with pkt := { deferred.pkt with data } } ∧
      ∀ address, covers deferred.pkt address = true →
        data.getD (address - deferred.pkt.addr.toNat) 0 = written pkt address (byteAt deferred.pkt address)

def Sees (ctrl next : MemCtrl) (pkt answer : Packet) : Prop :=
  if pkt.isRead then answer.data.take pkt.size = ctrl.mem.pmem.read pkt.addr.toNat pkt.size
  else WriteSeen ctrl next pkt

def UpToDate (ctrl : MemCtrl) (pkt : Packet) : Prop :=
  if pkt.isRead then
    ∀ address, covers pkt address = true → ∀ deferred, latest pkt ctrl.packetQueue address = some deferred →
      byteAt deferred.pkt address = ctrl.mem.pmem address
  else
    ∀ deferred ∈ ctrl.packetQueue, deferred.pkt.hasData = true → ∀ address, covers deferred.pkt address = true →
      covers pkt address = true → writes pkt address ≠ (deferred.pkt.isSecure == pkt.isSecure) →
      byteAt deferred.pkt address = byteAt pkt address

/-- A block that can be compared with others: not empty, of a size that fits an int,
and inside its buffer. -/
structure Framed (pkt : Packet) : Prop where
  positive : 0 < pkt.size
  small : pkt.size < 2 ^ 31
  unwrapped : pkt.addr.toNat + pkt.size < 2 ^ 64
  buffered : pkt.size ≤ pkt.data.length

structure OrdinaryAccess (which : Controller) (range : AddrRange) (pkt : Packet) : Prop where
  cmd : pkt.cmd = .readReq ∨ pkt.cmd = .writeReq
  plain : which = .simpleMemory → dispatch pkt.req.flags = none
  positive : 0 < pkt.size
  small : pkt.size < 2 ^ 31
  buffered : pkt.size ≤ pkt.data.length
  within : range.backs pkt.addr pkt.size = true
  mask : pkt.req.byteEnable = [] ∨ pkt.req.byteEnable.length = pkt.size
  marks : pkt.bytesValid = [] ∨ pkt.bytesValid.length = pkt.size
  incomplete : missing pkt ≠ []

variable {pkt : Packet} {deferred : DeferredPacket} {address : Nat} {which : Controller} {ctrl : MemCtrl}

theorem Framed.block (framed : Framed pkt) : Block pkt.addr pkt.size :=
  ⟨framed.positive, Nat.le_of_lt framed.unwrapped⟩

structure Waiting (deferred : DeferredPacket) : Prop where
  response : deferred.pkt.isResponse = true
  framed : deferred.pkt.hasData = true → Framed deferred.pkt

theorem Waiting.unmasked (waiting : Waiting deferred) : deferred.pkt.isMaskedWrite = false := by
  have response := waiting.response
  unfold isMaskedWrite
  cases same : deferred.pkt.cmd == .writeReq with
  | false => rfl
  | true =>
    unfold Packet.isResponse at response
    rw [eq_of_beq same] at response
    cases response

theorem covers_iff : covers pkt address = true ↔ pkt.addr.toNat ≤ address ∧ address < pkt.addr.toNat + pkt.size := by
  simp only [covers, and_eq_true, decide_eq_true_eq]

theorem mem_missing : address ∈ missing pkt ↔ covers pkt address = true ∧ pkt.bytesValid.getD (address - pkt.addr.toNat) false = false := by
  simp only [missing, span, mem_filter, mem_map, mem_range, Bool.not_eq_true', covers_iff]
  constructor
  · intro ⟨⟨offset, inside, same⟩, unmarked⟩
    exact ⟨by omega, unmarked⟩
  · intro ⟨inside, unmarked⟩
    exact ⟨⟨address - pkt.addr.toNat, by omega, by omega⟩, unmarked⟩

structure Reading (pkt : Packet) : Prop where
  read : pkt.cmd = .readResp
  framed : Framed pkt
  marks : pkt.bytesValid = [] ∨ pkt.bytesValid.length = pkt.size

/-- One packet supplies the bytes still missing that it holds. -/
structure Supplied (pkt moved : Packet) (deferred : DeferredPacket) (done : Bool) : Prop where
  reading : Reading moved
  left : missing moved = (missing pkt).filter fun wanted => !holds pkt wanted deferred
  complete : done = true ↔ missing moved = []
  bytes : ∀ address, covers pkt address = true → byteAt moved address =
    if holds pkt address deferred then byteAt deferred.pkt address else byteAt pkt address

theorem Supplied.nothing (reading : Reading pkt)
    (incomplete : missing pkt ≠ []) (elsewhere : ∀ address, covers pkt address = true → holds pkt address deferred = false) :
    Supplied pkt pkt deferred false := by
  refine ⟨reading, ?_, ⟨nofun, fun complete => absurd complete incomplete⟩, ?_⟩
  · symm
    apply filter_eq_self.mpr
    intro address member
    rw [elsewhere address (mem_missing.mp member).1]
    rfl
  · intro address inside
    rw [elsewhere address inside]
    rfl

section
variable {pkt : Packet} {deferred : DeferredPacket}

theorem Reading.reader (reading : Reading pkt) : Reader pkt where
  read := by
    rw [Packet.isRead, reading.read]
    rfl
  block := reading.framed.block
  buffered := reading.framed.buffered
  marks := reading.marks

theorem Supplied.of_supply (reading : Reading pkt) (incomplete : missing pkt ≠ []) (carries : deferred.pkt.hasData = true)
    {done : Bool} {data : List Byte} {marks : List Bool}
    (supply : Supply pkt (fun address => deferred.pkt.isSecure == pkt.isSecure && inBlock deferred.pkt.addr deferred.pkt.size address)
      (byteAt deferred.pkt) done data marks) : Supplied pkt { pkt with data, bytesValid := marks } deferred done := by
  have held : ∀ address, (deferred.pkt.isSecure == pkt.isSecure && inBlock deferred.pkt.addr deferred.pkt.size address) =
      holds pkt address deferred := by
    intro address
    rw [holds, carries, Bool.true_and]
    rfl
  have offset : ∀ address, covers pkt address = true →
      address - pkt.addr.toNat < pkt.size ∧ pkt.addr.toNat + (address - pkt.addr.toNat) = address := by
    intro address inside
    rw [covers_iff] at inside
    omega
  have mark : ∀ address, covers pkt address = true → marks.getD (address - pkt.addr.toNat) false =
      (pkt.bytesValid.getD (address - pkt.addr.toNat) false || holds pkt address deferred) := by
    intro address inside
    obtain ⟨position, back⟩ := offset address inside
    rw [supply.marked _ position, held, back]
  have left : missing { pkt with data, bytesValid := marks } = (missing pkt).filter fun wanted => !holds pkt wanted deferred := by
    unfold missing
    rw [filter_filter]
    apply filter_congr
    intro address member
    have inside : covers pkt address = true := by
      obtain ⟨offset, bound, rfl⟩ := mem_map.mp member
      rw [mem_range] at bound
      rw [covers_iff]
      dsimp only at bound ⊢
      omega
    rw [mark address inside, Bool.not_or, Bool.and_comm]
  have reader := supply.reader reading.reader
  refine ⟨⟨reading.read, ⟨reading.framed.positive, reading.framed.small, reading.framed.unwrapped, reader.buffered⟩,
    supply.shape⟩, left, ?_, fun address inside => ?_⟩
  · rw [supply.complete]
    constructor
    · rintro ⟨_, all⟩
      apply eq_nil_iff_forall_not_mem.mpr
      intro address member
      obtain ⟨inside, unmarked⟩ := mem_missing.mp member
      rw [all _ (offset address inside).1] at unmarked
      cases unmarked
    · intro none
      have all : ∀ i < pkt.size, marks.getD i false = true := by
        intro i inside
        by_contra unset
        have absent : pkt.addr.toNat + i ∉ missing { pkt with data, bytesValid := marks } := by
          rw [none]
          exact not_mem_nil
        apply absent
        rw [mem_missing, covers_iff]
        dsimp only
        rw [Nat.add_sub_cancel_left]
        exact ⟨by omega, by simpa using unset⟩
      refine ⟨?_, all⟩
      obtain ⟨address, member⟩ := exists_mem_of_ne_nil _ incomplete
      obtain ⟨inside, unmarked⟩ := mem_missing.mp member
      obtain ⟨position, back⟩ := offset address inside
      have marked := mark address inside
      rw [all _ position, unmarked, Bool.false_or] at marked
      refine ⟨_, position, ?_⟩
      rw [held, back]
      exact marked.symm
  · obtain ⟨position, back⟩ := offset address inside
    have byte := supply.bytes (address - pkt.addr.toNat)
    rw [held, back] at byte
    unfold byteAt at byte ⊢
    rw [byte]
    exact if_congr (and_iff_right position) rfl rfl

theorem trySatisfyFunctional_read (reading : Reading pkt) (incomplete : missing pkt ≠ []) (waiting : Waiting deferred) :
    ∃ done data marks, pkt.trySatisfyFunctional deferred.pkt =
        .ok (done, { pkt with data, bytesValid := marks }, deferred.pkt) ∧
      Supplied pkt { pkt with data, bytesValid := marks } deferred done := by
  unfold Packet.trySatisfyFunctional
  rw [waiting.unmasked]
  cases carries : deferred.pkt.hasData with
  | false =>
    refine ⟨false, pkt.data, pkt.bytesValid, ?_, .nothing reading incomplete ?_⟩
    · simp only [false_eq_true, if_false, trySatisfyData_none _ _ _ reading.reader.visible, ok_bind]
      rfl
    · intro address _
      simp [holds, carries]
  | true =>
    have queued := waiting.framed carries
    obtain ⟨done, data, marks, call, supply⟩ :=
      satisfy_read reading.reader queued.block queued.small deferred.pkt.isSecure queued.buffered
    refine ⟨done, data, marks, ?_, .of_supply reading incomplete carries supply⟩
    simp only [false_eq_true, if_false, if_true, call, ok_bind]
    rfl

theorem consulted_congr {other : Packet} (secure : other.isSecure = pkt.isSecure) (wanted : List Nat)
    (queue : List DeferredPacket) : consulted other wanted queue = consulted pkt wanted queue := by
  induction queue generalizing wanted with
  | nil => cases wanted <;> rfl
  | cons _ _ ih =>
    cases wanted with
    | nil => rfl
    | cons =>
      simp only [consulted, holds, secure]
      rw [ih]

theorem latest_complete (queue : List DeferredPacket) (address : Nat) (complete : missing pkt = []) :
    latest pkt queue address = none := by
  unfold latest
  rw [complete]
  cases queue <;> rfl

theorem latest_cons {moved : Packet} {done : Bool} (secure : moved.isSecure = pkt.isSecure)
    (incomplete : missing pkt ≠ []) (supplied : Supplied pkt moved deferred done) (rest : List DeferredPacket)
    (address : Nat) : latest pkt (deferred :: rest) address =
      (latest moved rest address).or (if holds pkt address deferred then some deferred else none) := by
  have holders : holds moved address = holds pkt address := by
    funext other
    simp only [holds, secure]
  unfold latest
  rw [supplied.left, consulted_congr secure, holders]
  cases wanted : missing pkt with
  | nil => exact absurd wanted incomplete
  | cons =>
    rw [consulted, reverse_cons, find?_append, find?_singleton]

variable {queue : List DeferredPacket}

theorem satisfyFromQueue_read (waiting : ∀ deferred ∈ queue, Waiting deferred) (reading : Reading pkt) (incomplete : missing pkt ≠ []) :
    ∃ data marks, MemCtrl.satisfyFromQueue pkt queue = .ok ({ pkt with data, bytesValid := marks }, queue) ∧
      pkt.size ≤ data.length ∧ ∀ address, covers pkt address = true → data.getD (address - pkt.addr.toNat) 0 =
        ((latest pkt queue address).map fun deferred => byteAt deferred.pkt address).getD (byteAt pkt address) := by
  induction queue generalizing pkt with
  | nil =>
    refine ⟨pkt.data, pkt.bytesValid, rfl, reading.framed.buffered, ?_⟩
    intro address inside
    have nobody : latest pkt [] address = none := by
      unfold latest
      cases missing pkt <;> rfl
    rw [nobody]
    rfl
  | cons deferred rest ih =>
    obtain ⟨done, data, marks, step, supplied⟩ :=
      trySatisfyFunctional_read reading incomplete (waiting deferred mem_cons_self)
    have choose : ∀ address, covers pkt address = true →
        ((latest pkt (deferred :: rest) address).map fun other => byteAt other.pkt address).getD (byteAt pkt address) =
          ((latest { pkt with data, bytesValid := marks } rest address).map fun other => byteAt other.pkt address).getD
            (byteAt { pkt with data, bytesValid := marks } address) := by
      intro address inside
      rw [latest_cons (by rfl) incomplete supplied, supplied.bytes address inside]
      cases latest { pkt with data, bytesValid := marks } rest address with
      | some => rfl
      | none => cases holds pkt address deferred <;> rfl
    rw [MemCtrl.satisfyFromQueue, step, ok_bind]
    dsimp only
    cases finished : done with
    | true =>
      have complete := supplied.complete.mp finished
      refine ⟨data, marks, rfl, supplied.reading.framed.buffered, ?_⟩
      intro address inside
      rw [choose address inside, latest_complete rest address complete]
      rfl
    | false =>
      have left : missing { pkt with data, bytesValid := marks } ≠ [] := by
        intro complete
        have wrong := supplied.complete.mpr complete
        rw [finished] at wrong
        cases wrong
      obtain ⟨last, final, ran, buffered, bytes⟩ :=
        ih (fun other member => waiting other (mem_cons_of_mem _ member)) supplied.reading left
      rw [if_neg Bool.false_ne_true, ran, ok_bind]
      refine ⟨last, final, rfl, buffered, ?_⟩
      intro address inside
      rw [choose address inside]
      exact bytes address inside

end

structure Writing (pkt : Packet) : Prop where
  write : pkt.cmd = .writeResp
  framed : Framed pkt

def updated (pkt : Packet) (deferred : DeferredPacket) (address : Nat) : Byte :=
  if covers pkt address && deferred.pkt.isSecure == pkt.isSecure then byteAt pkt address else byteAt deferred.pkt address

theorem spliced_getD (framed : Framed pkt) (queued : Framed deferred.pkt)
    (secure : deferred.pkt.isSecure = pkt.isSecure) (below : pkt.addr.toNat < deferred.pkt.addr.toNat + deferred.pkt.size)
    (above : deferred.pkt.addr.toNat < pkt.addr.toNat + pkt.size) (inside : covers deferred.pkt address = true) :
    (splice deferred.pkt.data (pkt.addr.toNat - deferred.pkt.addr.toNat)
      ((pkt.data.drop (deferred.pkt.addr.toNat - pkt.addr.toNat)).take
        (min (pkt.addr.toNat + pkt.size) (deferred.pkt.addr.toNat + deferred.pkt.size) -
          max pkt.addr.toNat deferred.pkt.addr.toNat))).getD (address - deferred.pkt.addr.toNat) 0 =
      updated pkt deferred address := by
  have buffered := framed.buffered
  have filled := queued.buffered
  rw [covers_iff] at inside
  generalize length_eq : min (pkt.addr.toNat + pkt.size) (deferred.pkt.addr.toNat + deferred.pkt.size) -
    max pkt.addr.toNat deferred.pkt.addr.toNat = length
  have copied : ((pkt.data.drop (deferred.pkt.addr.toNat - pkt.addr.toNat)).take length).length = length := by
    rw [length_take, length_drop]
    omega
  unfold updated
  rw [splice_getD (by omega), copied]
  by_cases within : pkt.addr.toNat ≤ address ∧ address < pkt.addr.toNat + pkt.size
  · rw [if_pos (by omega), if_pos, segment_getD (by omega)]
    · unfold byteAt
      congr 1
      omega
    · rw [and_eq_true, covers_iff, beq_iff_eq]
      exact ⟨within, secure⟩
  · rw [if_neg (by omega), if_neg]
    · rfl
    · rw [and_eq_true, covers_iff]
      exact fun both => within both.1

theorem trySatisfyFunctional_write (writing : Writing pkt) (waiting : Waiting deferred) :
    ∃ data, pkt.trySatisfyFunctional deferred.pkt = .ok (false, pkt, { deferred.pkt with data }) ∧
      (deferred.pkt.hasData = true → ∀ address, covers deferred.pkt address = true →
        data.getD (address - deferred.pkt.addr.toNat) 0 = updated pkt deferred address) := by
  have visible : pkt.cmd.isPrint = false := by
    rw [writing.write]
    rfl
  unfold Packet.trySatisfyFunctional
  rw [waiting.unmasked]
  cases carries : deferred.pkt.hasData with
  | false =>
    refine ⟨deferred.pkt.data, ?_, nofun⟩
    simp only [false_eq_true, if_false, trySatisfyData_none _ _ _ visible, ok_bind]
    rfl
  | true =>
    have queued := waiting.framed carries
    by_cases apart : deferred.pkt.isSecure ≠ pkt.isSecure ∨
        deferred.pkt.addr.toNat + deferred.pkt.size ≤ pkt.addr.toNat ∨
        pkt.addr.toNat + pkt.size ≤ deferred.pkt.addr.toNat
    · refine ⟨deferred.pkt.data, ?_, ?_⟩
      · simp only [false_eq_true, if_false, trySatisfyData_apart writing.framed.block queued.block queued.small apart, ok_bind]
        rfl
      · intro _ address inside
        unfold updated
        rw [if_neg]
        · rfl
        rw [covers_iff] at inside
        rw [and_eq_true, covers_iff, beq_iff_eq]
        intro ⟨within, secure⟩
        rcases apart with other | elsewhere
        · exact other secure
        · omega
    · have secure : deferred.pkt.isSecure = pkt.isSecure := by
        by_contra other
        exact apart (.inl other)
      have reads : pkt.isRead = false := by
        unfold Packet.isRead
        rw [writing.write]
        rfl
      have isWrite : pkt.isWrite = true := by
        unfold Packet.isWrite
        rw [writing.write]
        rfl
      have met := trySatisfyData_meet writing.framed.block queued.block queued.small secure (by omega) (by omega) visible deferred.pkt.data
      refine ⟨splice deferred.pkt.data (pkt.addr.toNat - deferred.pkt.addr.toNat)
        ((pkt.data.drop (deferred.pkt.addr.toNat - pkt.addr.toNat)).take
          (min (pkt.addr.toNat + pkt.size) (deferred.pkt.addr.toNat + deferred.pkt.size) -
            max pkt.addr.toNat deferred.pkt.addr.toNat)), ?_, ?_⟩
      · simp only [false_eq_true, if_false, if_true, met, reads, isWrite, ok_bind]
        rfl
      · intro _ address inside
        exact spliced_getD writing.framed queued secure (by omega) (by omega) inside

theorem satisfyFromQueue_write (waiting : ∀ deferred ∈ queue, Waiting deferred) (writing : Writing pkt) :
    ∃ after, MemCtrl.satisfyFromQueue pkt queue = .ok (pkt, after) ∧
      ∀ (position : Nat) (deferred : DeferredPacket), queue[position]? = some deferred → ∃ data : List Byte,
        after[position]? = some { deferred with pkt := { deferred.pkt with data } } ∧
        (deferred.pkt.hasData = true → ∀ address, covers deferred.pkt address = true →
          data.getD (address - deferred.pkt.addr.toNat) 0 = updated pkt deferred address) := by
  induction queue with
  | nil =>
    refine ⟨[], rfl, ?_⟩
    intro position deferred found
    cases found
  | cons deferred _ ih =>
    obtain ⟨data, step, bytes⟩ := trySatisfyFunctional_write writing (waiting deferred mem_cons_self)
    obtain ⟨after, ran, each⟩ := ih (fun other member => waiting other (mem_cons_of_mem _ member))
    refine ⟨{ deferred with pkt := { deferred.pkt with data } } :: after, ?_, ?_⟩
    · rw [MemCtrl.satisfyFromQueue, step, ok_bind]
      dsimp only
      rw [if_neg Bool.false_ne_true, ran, ok_bind]
      rfl
    · intro position other found
      cases position with
      | zero =>
        cases found
        exact ⟨data, rfl, bytes⟩
      | succ position => exact each position other found

section
variable {which : Controller} {ctrl : MemCtrl} {pkt : Packet}

theorem OrdinaryAccess.framed {range : AddrRange} (access : OrdinaryAccess which range pkt) : Framed pkt := by
  have within := access.within
  simp only [AddrRange.backs, and_eq_true, decide_eq_true_eq] at within
  exact ⟨access.positive, access.small, by omega, access.buffered⟩

theorem OrdinaryAccess.isSubset {range : AddrRange} (access : OrdinaryAccess which range pkt) :
    pkt.getAddrRange.isSubset range = true := by
  have within := access.within
  simp only [AddrRange.backs, and_eq_true, decide_eq_true_eq] at within
  simp only [getAddrRange, AddrRange.rangeSize, AddrRange.isSubset, BitVec.ule, and_eq_true,
    decide_eq_true_eq, BitVec.toNat_add, BitVec.toNat_ofNat]
  exact ⟨decide_eq_true within.1, by omega⟩

section

variable (access : OrdinaryAccess which ctrl.mem.range pkt)
include access

theorem recvFunctional_ordinary : which.recvFunctional ctrl pkt = ctrl.functional pkt := by
  cases which with
  | pimCtrl => rfl
  | simpleMemory =>
    change SimpleMemory.recvFunctional ctrl pkt = _
    unfold SimpleMemory.recvFunctional
    rw [access.plain rfl]

theorem functionalAccess_read (read : pkt.cmd = .readReq) :
    ctrl.mem.functionalAccess pkt = .ok (ctrl.mem, { pkt with
      cmd := .readResp
      expressSnoop := false
      data := ctrl.mem.pmem.read pkt.addr.toNat pkt.size ++ pkt.data.drop pkt.size }) := by
  have isRead : pkt.isRead = true := by
    unfold Packet.isRead
    rw [read]
    rfl
  have turned := (makeResponse_ok (by
    change MemCmd.needsResponse pkt.cmd = true
    rw [read]
    rfl : (pkt.setData (ctrl.mem.pmem.read pkt.addr.toNat pkt.size)).needsResponse = true)).1
  unfold functionalAccess hostRead
  rw [access.isSubset, require_true, ok_bind, if_pos isRead, access.within, if_pos rfl, ok_bind, turned, ok_bind]
  simp only [setData, read]
  rfl

theorem payload_ok : pkt.payload = .ok (pkt.data.take pkt.size) := by
  unfold payload
  rw [if_pos access.buffered]

end

theorem enabled_getD {mask : List Bool} {fresh old : List Byte} {position : Nat} (masked : position < mask.length)
    (filled : position < fresh.length) (bound : position < old.length) :
    (Packet.enabled mask fresh old).getD position 0 =
      if mask.getD position false then fresh.getD position 0 else old.getD position 0 := by
  have length : position < (Packet.enabled mask fresh old).length := by
    simp only [Packet.enabled, length_zipWith, length_zip]
    omega
  rw [getD_eq_getElem _ _ length, getD_eq_getElem _ _ masked, getD_eq_getElem _ _ filled, getD_eq_getElem _ _ bound]
  simp only [Packet.enabled, getElem_zipWith, getElem_zip]

theorem functionalAccess_write (access : OrdinaryAccess which ctrl.mem.range pkt) (write : pkt.cmd = .writeReq) :
    ∃ pmem, ctrl.mem.functionalAccess pkt =
        .ok ({ ctrl.mem with pmem }, { pkt with cmd := .writeResp, expressSnoop := false }) ∧
      ∀ address, pmem address = written pkt address (ctrl.mem.pmem address) := by
  have isRead : pkt.isRead = false := by
    unfold Packet.isRead
    rw [write]
    rfl
  have isWrite : pkt.isWrite = true := by
    unfold Packet.isWrite
    rw [write]
    rfl
  have turned : pkt.makeResponse = .ok { pkt with cmd := .writeResp, expressSnoop := false } := by
    have response := (makeResponse_ok (by
      unfold Packet.needsResponse
      rw [write]
      rfl : pkt.needsResponse = true)).1
    rw [response, write]
    rfl
  have buffered := access.buffered
  have filled : (pkt.data.take pkt.size).length = pkt.size := by
    rw [length_take]
    omega
  unfold functionalAccess writeData
  rw [access.isSubset, require_true, ok_bind, isRead, if_neg Bool.false_ne_true, if_pos isWrite, payload_ok access, ok_bind]
  cases masked : pkt.isMaskedWrite with
  | false =>
    refine ⟨ctrl.mem.pmem.write pkt.addr.toNat (pkt.data.take pkt.size), ?_, ?_⟩
    · unfold hostWrite
      rw [if_neg Bool.false_ne_true, filled, access.within, if_pos rfl]
      simp only [ok_bind, turned]
      rfl
    · intro address
      unfold written writes Store.write
      rw [masked, filled]
      simp only [Bool.not_false, Bool.true_or, Bool.and_true, covers_iff]
      split
      next inside =>
        simp only [byteAt, getD_eq_getElem?_getD, getElem?_take]
        rw [if_pos (by omega)]
      next => rfl
  | true =>
    have mask : pkt.req.byteEnable.length = pkt.size := by
      rcases access.mask with empty | full
      · simp [isMaskedWrite, Request.isMasked, empty] at masked
      · exact full
    have merged : (Packet.enabled pkt.req.byteEnable (pkt.data.take pkt.size)
        (ctrl.mem.pmem.read pkt.addr.toNat pkt.size)).length = pkt.size := by
      simp only [Packet.enabled, length_zipWith, length_zip, mask, filled, Store.read_length, Nat.min_self]
    refine ⟨ctrl.mem.pmem.write pkt.addr.toNat (Packet.enabled pkt.req.byteEnable (pkt.data.take pkt.size)
      (ctrl.mem.pmem.read pkt.addr.toNat pkt.size)), ?_, ?_⟩
    · unfold hostWrite hostRead
      rw [if_pos rfl, mask, beq_self_eq_true, require_true, ok_bind, access.within, if_pos rfl, ok_bind, merged,
        access.within, if_pos rfl]
      simp only [ok_bind, turned]
      rfl
    · intro address
      unfold written writes Store.write
      rw [masked, merged]
      simp only [Bool.not_true, Bool.false_or, and_eq_true, covers_iff]
      split
      next inside =>
        have position : address - pkt.addr.toNat < pkt.size := by omega
        rw [enabled_getD (by omega) (by omega) (by rw [Store.read_length]; exact position)]
        simp only [byteAt, getD_eq_getElem?_getD, getElem?_take, if_pos position, inside, true_and,
          Store.read, getElem?_map, getElem?_range position, map_some, getD_some]
        rw [Nat.add_sub_cancel' inside.1]
      next outside =>
        rw [if_neg]
        exact fun both => outside both.1

theorem read_eq_iff {data : List Byte} {store : Store} {start size : Nat} (buffered : size ≤ data.length) :
    data.take size = store.read start size ↔
      ∀ address, start ≤ address → address < start + size → data.getD (address - start) 0 = store address := by
  constructor
  · intro same address above below
    have position : address - start < size := by omega
    have bytes := congrArg (·.getD (address - start) 0) same
    simp only [getD_eq_getElem?_getD, getElem?_take, if_pos position, Store.read, getElem?_map,
      getElem?_range position, map_some, getD_some] at bytes
    rw [Nat.add_sub_cancel' above] at bytes
    rw [getD_eq_getElem?_getD]
    exact bytes
  · intro same
    apply ext_getElem
    · rw [length_take, Store.read_length]
      omega
    · intro offset first second
      rw [Store.read_length] at second
      have byte := same (start + offset) (by omega) (by omega)
      rw [Nat.add_sub_cancel_left, getD_eq_getElem _ _ (by omega)] at byte
      simp only [getElem_take, Store.read, getElem_map, getElem_range]
      exact byte

theorem functional_read (waiting : ∀ deferred ∈ ctrl.packetQueue, Waiting deferred)
    (access : OrdinaryAccess which ctrl.mem.range pkt) (read : pkt.cmd = .readReq) :
    ∃ next answer, ctrl.functional pkt = .ok (next, answer) ∧ (Sees ctrl next pkt answer ↔ UpToDate ctrl pkt) := by
  have isRead : pkt.isRead = true := by
    unfold Packet.isRead
    rw [read]
    rfl
  obtain ⟨fetched, fetched_eq⟩ : ∃ fetched : Packet, fetched = { pkt with
    cmd := .readResp
    expressSnoop := false
    data := ctrl.mem.pmem.read pkt.addr.toNat pkt.size ++ pkt.data.drop pkt.size } := ⟨_, rfl⟩
  have served := functionalAccess_read access read
  rw [← fetched_eq] at served
  have reading : Reading fetched := by
    rw [fetched_eq]
    refine ⟨rfl, ⟨access.positive, access.small, access.framed.unwrapped, ?_⟩, access.marks⟩
    dsimp only
    rw [length_append, Store.read_length]
    omega
  have incomplete : missing fetched ≠ [] := by
    rw [fetched_eq]
    exact access.incomplete
  obtain ⟨data, marks, ran, filled, bytes⟩ := satisfyFromQueue_read waiting reading incomplete
  refine ⟨ctrl, { fetched with data, bytesValid := marks }, ?_, ?_⟩
  · unfold MemCtrl.functional
    simp only [served, ok_bind, ran]
    rfl
  unfold Sees UpToDate
  rw [if_pos isRead, if_pos isRead]
  have size : fetched.size = pkt.size := by rw [fetched_eq]
  have start : fetched.addr = pkt.addr := by rw [fetched_eq]
  rw [size] at filled
  rw [read_eq_iff filled]
  have stored : ∀ address, covers pkt address = true → byteAt fetched address = ctrl.mem.pmem address := by
    intro address inside
    rw [covers_iff] at inside
    have position : address - pkt.addr.toNat < pkt.size := by omega
    rw [fetched_eq]
    unfold byteAt
    rw [getD_append _ _ _ _ (by rw [Store.read_length]; exact position)]
    simp only [getD_eq_getElem?_getD, Store.read, getElem?_map, getElem?_range position, map_some, getD_some]
    rw [Nat.add_sub_cancel' inside.1]
  have chosen : ∀ address, latest fetched ctrl.packetQueue address = latest pkt ctrl.packetQueue address := by
    intro address
    have holders : holds fetched address = holds pkt address := by
      rw [fetched_eq]
      rfl
    have wanted : missing fetched = missing pkt := by
      rw [fetched_eq]
      rfl
    have secure : fetched.isSecure = pkt.isSecure := by rw [fetched_eq]
    unfold latest
    rw [wanted, holders, consulted_congr secure]
  have spans : ∀ address, covers fetched address = covers pkt address := by
    intro address
    rw [fetched_eq]
    rfl
  rw [start] at bytes
  constructor
  · intro same address inside deferred found
    have copied := bytes address ((spans address).trans inside)
    rw [covers_iff] at inside
    rw [chosen, found, same address inside.1 inside.2] at copied
    exact copied.symm
  · intro fresh address above below
    have inside : covers pkt address = true := covers_iff.mpr ⟨above, below⟩
    rw [bytes address ((spans address).trans inside), chosen, stored address inside]
    cases found : latest pkt ctrl.packetQueue address with
    | none => rfl
    | some deferred => exact fresh address inside deferred found

theorem updated_eq_iff (deferred : DeferredPacket) (address : Nat) :
    updated { pkt with cmd := .writeResp, expressSnoop := false } deferred address =
        written pkt address (byteAt deferred.pkt address) ↔
      (covers pkt address = true → writes pkt address ≠ (deferred.pkt.isSecure == pkt.isSecure) →
        byteAt deferred.pkt address = byteAt pkt address) := by
  have bytes : byteAt { pkt with cmd := .writeResp, expressSnoop := false } address = byteAt pkt address := rfl
  have spans : covers { pkt with cmd := .writeResp, expressSnoop := false } address = covers pkt address := rfl
  unfold updated written
  rw [bytes, spans]
  cases inside : covers pkt address with
  | false =>
    have idle : writes pkt address = false := by
      unfold writes
      rw [inside]
      rfl
    simp [idle]
  | true => cases writes pkt address <;> cases deferred.pkt.isSecure == pkt.isSecure <;> simp [eq_comm]

theorem functional_write (waiting : ∀ deferred ∈ ctrl.packetQueue, Waiting deferred)
    (access : OrdinaryAccess which ctrl.mem.range pkt) (write : pkt.cmd = .writeReq) :
    ∃ next answer, ctrl.functional pkt = .ok (next, answer) ∧ (Sees ctrl next pkt answer ↔ UpToDate ctrl pkt) := by
  have isRead : pkt.isRead = false := by
    unfold Packet.isRead
    rw [write]
    rfl
  obtain ⟨pmem, served, store⟩ := functionalAccess_write access write
  have writing : Writing { pkt with cmd := .writeResp, expressSnoop := false } :=
    ⟨rfl, ⟨access.positive, access.small, access.framed.unwrapped, access.buffered⟩⟩
  obtain ⟨after, ran, each⟩ := satisfyFromQueue_write waiting writing
  refine ⟨{ ctrl with mem := { ctrl.mem with pmem }, packetQueue := after },
    { pkt with cmd := .writeResp, expressSnoop := false }, ?_, ?_⟩
  · unfold MemCtrl.functional
    simp only [served, ok_bind, ran]
    rfl
  unfold Sees UpToDate
  rw [isRead, if_neg Bool.false_ne_true, if_neg Bool.false_ne_true]
  have agree := @updated_eq_iff pkt
  constructor
  · intro seen deferred member carries address held inside differ
    obtain ⟨position, found⟩ := getElem?_of_mem member
    obtain ⟨_, now, bytes⟩ := seen.queue position deferred found carries
    obtain ⟨copied, same, got⟩ := each position deferred found
    rw [same] at now
    cases now
    apply (agree deferred address).mp _ inside differ
    rw [← got carries address held, bytes address held]
  · intro fresh
    refine ⟨store, ?_⟩
    intro position deferred found carries
    obtain ⟨copied, same, got⟩ := each position deferred found
    refine ⟨copied, same, ?_⟩
    intro address held
    rw [got carries address held]
    apply (agree deferred address).mpr
    exact fresh deferred (mem_of_getElem? found) carries address held

end

theorem perform_read {mem next : AbstractMemory} {result : Packet} {effects : List Effect} (reads : pkt.isRead = true)
    (ran : mem.perform pkt = .ok (next, result, effects)) :
    mem.range.backs pkt.addr pkt.size = true ∧ result = pkt.setData (mem.pmem.read pkt.addr.toNat pkt.size) := by
  unfold AbstractMemory.perform at ran
  split at ran
  · obtain ⟨_, fetched, ran⟩ := of_bind ran
    obtain ⟨backed, rfl⟩ := hostRead_ok fetched
    split at ran
    · obtain ⟨_, _, ran⟩ := of_bind ran
      cases ran
      exact ⟨backed, rfl⟩
    · obtain ⟨_, _, ran⟩ := of_bind ran
      obtain ⟨_, _, ran⟩ := of_bind ran
      split at ran
      · obtain ⟨_, _, ran⟩ := of_bind ran
        obtain ⟨_, ran⟩ := of_require ran
        cases ran
        exact ⟨backed, rfl⟩
      · obtain ⟨_, ran⟩ := of_require ran
        cases ran
        exact ⟨backed, rfl⟩
  · obtain ⟨_, ran⟩ := of_require ran
    obtain ⟨_, fetched, ran⟩ := of_bind ran
    obtain ⟨backed, rfl⟩ := hostRead_ok fetched
    split at ran
    · obtain ⟨_, ran⟩ := of_require ran
      obtain ⟨_, _, ran⟩ := of_bind ran
      cases ran
      exact ⟨backed, rfl⟩
    · cases ran
      exact ⟨backed, rfl⟩

theorem isRead_of_response_hasData {cmd : MemCmd} (needs : cmd.needsResponse = true)
    (carries : cmd.responseCommand.hasData = true) : cmd.isRead = true := by
  cases cmd <;> first | rfl | (exact absurd needs (by decide)) | (exact absurd carries (by decide))

structure Sized (pkt : Packet) : Prop where
  positive : 0 < pkt.size
  small : pkt.size < 2 ^ 31

theorem access_waiting {mem next : AbstractMemory} {result : Packet} {effects : List Effect} (tick : Tick)
    (sized : Sized pkt) (quiet : pkt.cacheResponding = false) (needs : pkt.needsResponse = true)
    (ran : mem.access pkt = .ok (next, result, effects)) : Waiting ⟨tick, result⟩ := by
  have turned := (access_response ran).2 needs quiet
  refine ⟨?_, ?_⟩
  · change result.cmd.isResponse = true
    rw [turned]
    exact (MemCmd.response_of_needsResponse _ needs).2.1
  intro carries
  change result.cmd.hasData = true at carries
  rw [turned] at carries
  have reads := isRead_of_response_hasData needs carries
  unfold AbstractMemory.access at ran
  rw [quiet, if_neg Bool.false_ne_true] at ran
  split at ran
  next clean =>
    rcases Bool.or_eq_true _ _ ▸ clean with same | same
    all_goals
      unfold Packet.needsResponse at needs
      rw [eq_of_beq same] at needs
      cases needs
  obtain ⟨_, ran⟩ := of_require ran
  obtain ⟨⟨_, _, _⟩, performed, ran⟩ := of_bind ran
  obtain ⟨backed, rfl⟩ := perform_read reads performed
  have asks : (pkt.setData (mem.pmem.read pkt.addr.toNat pkt.size)).needsResponse = true := needs
  dsimp only at ran
  rw [if_pos asks] at ran
  obtain ⟨_, response, ran⟩ := of_bind ran
  rw [(makeResponse_ok asks).1] at response
  cases response
  cases ran
  simp only [AddrRange.backs, and_eq_true, decide_eq_true_eq] at backed
  refine ⟨sized.positive, sized.small, ?_, ?_⟩
  · change pkt.addr.toNat + pkt.size < 2 ^ 64
    omega
  · change pkt.size ≤ (mem.pmem.read pkt.addr.toNat pkt.size ++ pkt.data.drop pkt.size).length
    rw [length_append, Store.read_length]
    omega

def QueueOk (ctrl : MemCtrl) : Prop := ∀ deferred ∈ ctrl.packetQueue, Waiting deferred

theorem queueOk_preserved : Preserved (fun _ pkt => Sized pkt) (fun ctrl _ => QueueOk ctrl) where
  content := by
    intro ctrl next past same kept
    unfold QueueOk
    rw [same.packetQueue]
    exact kept
  received := by
    intro ctrl next now random pkt taken past labels kept sized ran
    unfold QueueOk
    cases recvTimingReq_cases ran with
    | refused _ _ queue =>
      rw [queue]
      exact kept
    | accepted _ _ processed =>
      cases processed with
      | inMemory _ _ queue =>
        rw [queue]
        exact kept
      | @ordinary tick result effects undispatched quiet accessed queue made =>
        rw [queue]
        split
        next needed =>
          intro deferred member
          rcases mem_cons.mp ((emplace_perm _ _).mem_iff.mp member) with rfl | older
          · refine access_waiting tick ?_ ?_ ?_ accessed
            · exact ⟨sized.positive, sized.small⟩
            · exact quiet
            · exact needed
          · exact kept deferred older
        next => exact kept
  responded := by
    intro ctrl next past deferred kept front mem queue
    unfold QueueOk
    rw [queue]
    intro other member
    exact kept other (mem_of_mem_tail member)
  retried := by
    intro ctrl past kept
    exact kept

theorem trySatisfyData_data {addr : Addr} {isSecure : Bool} {size : Nat} {data : Option (List Byte)}
    {result : Satisfied} (ran : pkt.trySatisfyData addr isSecure size data = .ok result) :
    result.data = data ∨ ∃ bytes offset copied, data = some bytes ∧ result.data = some (splice bytes offset copied) := by
  unfold trySatisfyData at ran
  dsimp only at ran
  split at ran
  · cases ran
    exact .inl rfl
  split at ran
  · obtain ⟨_, ran⟩ := of_require ran
    cases ran
    exact .inl rfl
  split at ran
  · cases ran
    exact .inl rfl
  next bytes =>
    split at ran
    · cases ran
      exact .inl rfl
    split at ran
    · cases ran
      exact .inr ⟨bytes, _, _, rfl, rfl⟩
    · cases ran

theorem trySatisfyFunctional_frame {moved other after : Packet} {done : Bool}
    (ran : pkt.trySatisfyFunctional other = .ok (done, moved, after)) :
    ∃ data, after = { other with data } ∧ other.data.length ≤ data.length := by
  unfold Packet.trySatisfyFunctional at ran
  split at ran
  · cases ran
    exact ⟨other.data, rfl, Nat.le_refl _⟩
  obtain ⟨result, tried, ran⟩ := of_bind ran
  cases ran
  refine ⟨result.data.getD other.data, rfl, ?_⟩
  rcases trySatisfyData_data tried with same | ⟨bytes, offset, copied, given, same⟩
  · rw [same]
    split <;> exact Nat.le_refl _
  · rw [same, getD_some]
    split at given
    · cases given
      exact splice_length_le _ _ _
    · cases given

theorem Waiting.overwritten (waiting : Waiting deferred) {data : List Byte} (longer : deferred.pkt.data.length ≤ data.length) :
    Waiting { deferred with pkt := { deferred.pkt with data } } := by
  refine ⟨waiting.response, ?_⟩
  intro carries
  obtain ⟨positive, small, unwrapped, buffered⟩ := waiting.framed carries
  exact ⟨positive, small, unwrapped, Nat.le_trans buffered longer⟩

theorem satisfyFromQueue_waiting {answer : Packet} {after : List DeferredPacket}
    (ran : MemCtrl.satisfyFromQueue pkt queue = .ok (answer, after)) (waiting : ∀ deferred ∈ queue, Waiting deferred) :
    ∀ deferred ∈ after, Waiting deferred := by
  induction queue generalizing pkt after with
  | nil =>
    cases ran
    exact waiting
  | cons deferred _ ih =>
    have first := waiting deferred mem_cons_self
    have others := fun other member => waiting other (mem_cons_of_mem deferred member)
    obtain ⟨⟨_, _, other⟩, tried, ran⟩ := of_bind ran
    obtain ⟨_, rfl, longer⟩ := trySatisfyFunctional_frame tried
    dsimp only at ran
    split at ran
    · cases ran
      exact forall_mem_cons.mpr ⟨first.overwritten longer, others⟩
    · obtain ⟨⟨_, _⟩, ended, ran⟩ := of_bind ran
      cases ran
      exact forall_mem_cons.mpr ⟨first.overwritten longer, ih ended others⟩

theorem recvFunctional_queueOk {next : MemCtrl} {answer : Packet} (kept : QueueOk ctrl)
    (ran : which.recvFunctional ctrl pkt = .ok (next, answer)) : QueueOk next := by
  have ordinary : ∀ {answer}, ctrl.functional pkt = .ok (next, answer) → QueueOk next := by
    intro answer ran
    obtain ⟨⟨mem, _⟩, _, ran⟩ := of_bind ran
    obtain ⟨⟨_, _⟩, looped, ran⟩ := of_bind ran
    cases ran
    exact satisfyFromQueue_waiting looped kept
  cases which with
  | pimCtrl => exact ordinary ran
  | simpleMemory =>
    change SimpleMemory.recvFunctional ctrl pkt = _ at ran
    unfold SimpleMemory.recvFunctional at ran
    split at ran
    · obtain ⟨⟨mem, _⟩, _, ran⟩ := of_bind ran
      obtain ⟨_, _, ran⟩ := of_bind ran
      cases ran
      exact kept
    · exact ordinary ran

def Asked (ctrl : MemCtrl) : CtrlEvent → Prop
  | .timing event => Offered (fun _ pkt => Sized pkt) ctrl event
  | .atomic _ => True
  | .functional _ => True

theorem step_queueOk {next : MemCtrl} {event : CtrlEvent} {labels : List MemLabel}
    (kept : QueueOk ctrl) (asked : Asked ctrl event) (taken : which.step ctrl event = .ok (next, labels)) :
    QueueOk next := by
  cases event with
  | timing event => exact @Preserved.step _ _ queueOk_preserved _ _ _ _ [] kept asked taken
  | atomic =>
    obtain ⟨⟨after, answer, _⟩, received, taken⟩ := of_bind taken
    cases taken
    obtain ⟨_, received⟩ := of_panicIf received
    obtain ⟨⟨_, _⟩, _, received⟩ := of_bind received
    cases received
    exact kept
  | functional =>
    obtain ⟨⟨after, answer⟩, received, taken⟩ := of_bind taken
    cases taken
    exact recvFunctional_queueOk kept received

theorem run_queueOk {start : MemCtrl} {events : List CtrlEvent} {labels : List MemLabel}
    (empty : start.packetQueue = []) (asked : Each which.step Asked start events)
    (ran : run which.step start events = .ok (ctrl, labels)) : QueueOk ctrl := by
  have idle : QueueOk start := by
    intro deferred member
    rw [empty] at member
    exact absurd member not_mem_nil
  refine @run_preserves _ _ _ _ which.step Asked (fun reached _ => QueueOk reached) ?_ start ctrl [] labels events idle asked ran
  intro before past event after made kept asked taken
  exact step_queueOk kept asked taken

/-- In every state that a controller can get to, an ordinary functional access is
served, and it sees memory as it is exactly if the queue is up to date. -/
theorem functional_sees_memory (which : Controller) (start ctrl : MemCtrl) (events : List CtrlEvent)
    (labels : List MemLabel) (empty : start.packetQueue = []) (asked : Each which.step Asked start events)
    (ran : run which.step start events = .ok (ctrl, labels)) (pkt : Packet) (access : OrdinaryAccess which ctrl.mem.range pkt) :
    ∃ next answer, which.recvFunctional ctrl pkt = .ok (next, answer) ∧
      (Sees ctrl next pkt answer ↔ UpToDate ctrl pkt) := by
  have waiting := run_queueOk empty asked ran
  rw [recvFunctional_ordinary access]
  rcases access.cmd with read | write
  · exact functional_read waiting access read
  · exact functional_write waiting access write

def firstByte (cmd : MemCmd) (byte : Byte) : Packet := .ofRequest { id := 0, paddr := 0, size := 1, flags := 0 } cmd [byte]

def overtaken : List CtrlEvent :=
  [.timing (.recvTimingReq 0 0 (firstByte .readReq 0)), .timing (.recvTimingReq 0 0 (firstByte .writeReq 1))]

def after (events : List CtrlEvent) : MemCtrl :=
  match run Controller.simpleMemory.step idleMemory events with
  | .ok ended => ended.1
  | .error _ => idleMemory

theorem firstByte_ordinary {range : AddrRange} (backed : range.backs 0 1 = true) :
    OrdinaryAccess .simpleMemory range (firstByte .readReq 0) where
  cmd := .inl rfl
  plain := fun _ => by decide
  positive := by decide
  small := by decide
  buffered := by decide
  within := backed
  mask := .inl rfl
  marks := .inl rfl
  incomplete := by decide

theorem overtaken_asked : Each Controller.simpleMemory.step Asked idleMemory overtaken := by
  refine ⟨⟨by decide, by decide⟩, ?_⟩
  exact ⟨⟨by decide, by decide⟩, trivial⟩

theorem functional_sees_memory_history :
    ∃ next answer, Controller.simpleMemory.recvFunctional (after (overtaken.take 1)) (firstByte .readReq 0) =
        .ok (next, answer) ∧ (Sees (after (overtaken.take 1)) next (firstByte .readReq 0) answer ↔
          UpToDate (after (overtaken.take 1)) (firstByte .readReq 0)) :=
  functional_sees_memory .simpleMemory idleMemory (after (overtaken.take 1)) (overtaken.take 1) _ rfl
    ⟨⟨by decide, by decide⟩, trivial⟩ (by rfl) (firstByte .readReq 0) (firstByte_ordinary (by decide))

/-- The functional read gets the byte that the waiting response read, not the one
that was written since. -/
theorem functional_read_stale :
    ¬ ∀ (which : Controller) (start ctrl : MemCtrl) (events : List CtrlEvent) (labels : List MemLabel),
      start.packetQueue = [] → Each which.step Asked start events → run which.step start events = .ok (ctrl, labels) →
      ∀ pkt, OrdinaryAccess which ctrl.mem.range pkt →
        ∃ next answer, which.recvFunctional ctrl pkt = .ok (next, answer) ∧ Sees ctrl next pkt answer := by
  intro all
  obtain ⟨next, answer, served, sees⟩ := all .simpleMemory idleMemory (after overtaken) overtaken _ rfl overtaken_asked
    (by rfl) (firstByte .readReq 0) (firstByte_ordinary (by decide))
  have stale : (Controller.simpleMemory.recvFunctional (after overtaken) (firstByte .readReq 0)).map (·.2.data) =
    .ok [0] := by rfl
  have current : (after overtaken).mem.pmem.read 0 1 = [1] := by rfl
  rw [served] at stale
  have same : answer.data = [0] := Except.ok.inj stale
  change answer.data.take 1 = (after overtaken).mem.pmem.read 0 1 at sees
  rw [same, current] at sees
  exact absurd sees (by decide)

end ImcGem5.Mem.Proofs.Functional
