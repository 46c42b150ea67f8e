import ImcGem5.Dev.DmaReadFifo

/-! What is read from a circular buffer is the latest of what was written, and what is got
from the FIFO over it are the bytes of the blocks, in their order. -/

namespace ImcGem5.Dev.Proofs.DmaReadFifo
open List Lib Mem

section CircleBuf

variable {α : Type} {buf : CircleBuf α} {past : ℕ} {contents data : List α}

/-- A buffer with these elements, after so many that are gone. -/
structure Holds (buf : CircleBuf α) (past : ℕ) (contents : List α) : Prop where
  shows : Ring.Shows buf.buffer past contents
  size : buf.buffer.length = buf.maxSize
  used : buf.used = contents.length
  start : buf.start = past % 2 ^ 64

def Unseen (size count : ℕ) : Prop := size ∣ 2 ^ 64 ∨ count ≤ 2 ^ 64

theorem Unseen.mono {size count less : ℕ} (unseen : Unseen size count) (le : less ≤ count) : Unseen size less :=
  unseen.imp_right fun bounded => le.trans bounded

theorem Holds.flush (holds : Holds buf past contents) : Holds buf.flush 0 [] where
  shows := nil_prefix
  size := holds.size
  used := rfl
  start := rfl

theorem Holds.place_ok (holds : Holds buf past contents) {offset : ℕ} (positive : 0 < buf.maxSize)
    (unseen : Unseen buf.maxSize (past + offset + 1)) : buf.place offset = .ok ((past + offset) % buf.buffer.length) := by
  rw [CircleBuf.place, if_neg (by omega), holds.size, holds.start, Nat.mod_add_mod]
  congr 1
  rcases unseen with divides | small
  · exact Nat.mod_mod_of_dvd _ divides
  · rw [Nat.mod_eq_of_lt (show past + offset < 2 ^ 64 by omega)]

theorem Holds.peek_ok (holds : Holds buf past contents) {offset len : ℕ} (enough : offset + len ≤ contents.length)
    (unseen : Unseen buf.maxSize (past + contents.length)) : buf.peek offset len = .ok ((contents.drop offset).take len) := by
  have fits := holds.shows.fits
  have size := holds.size
  rw [CircleBuf.peek, holds.used, decide_eq_false (by omega)]
  change (if len = 0 then _ else _) = _
  split
  next none =>
    rw [none, take_zero]
    rfl
  next =>
    rw [bind_of_ok (holds.place_ok (by omega) (unseen.mono (by omega)))]
    have shown := (holds.shows.drop offset (by omega)).readRound len (by omega) (by rw [length_drop]; omega)
    rw [← shown, Ring.readRound]
    dsimp only
    split <;> rfl

theorem Holds.read_ok (holds : Holds buf past contents) (len : ℕ) (enough : len ≤ contents.length)
    (unseen : Unseen buf.maxSize (past + contents.length)) :
    ∃ next, buf.read len = .ok (contents.take len, next) ∧ next.maxSize = buf.maxSize ∧ Holds next (past + len) (contents.drop len) := by
  refine ⟨_, bind_of_ok (holds.peek_ok (by omega) unseen) _, rfl, holds.shows.drop len enough, holds.size, ?_, ?_⟩
  · rw [length_drop, ← holds.used]
  · change (buf.start + len) % 2 ^ 64 = _
    rw [holds.start, Nat.mod_add_mod]

theorem Holds.writeFitting_ok (holds : Holds buf past contents) (data : List α) (positive : 0 < buf.maxSize) (fits : data.length ≤ buf.maxSize)
    (unseen : Unseen buf.maxSize (past + contents.length + 1)) :
    ∃ next, buf.writeFitting data = .ok next ∧ next.maxSize = buf.maxSize ∧
      Holds next (past + (contents.length + data.length - buf.maxSize)) ((contents ++ data).rtake buf.maxSize) := by
  have size := holds.size
  have shows := holds.shows.append data (by omega) (by omega)
  have place := holds.place_ok positive unseen
  refine ⟨_, bind_of_ok (by rw [holds.used, place]) _, rfl, ?_, ?_, ?_, ?_⟩
  · rw [← size]
    exact shows
  · exact (Ring.length_copyRound (Nat.mod_lt _ (by omega)) (by omega)).trans size
  · change buf.used + data.length - (buf.used + data.length - buf.maxSize) = _
    rw [holds.used, rtake, length_drop, length_append]
  · change (buf.start + (buf.used + data.length - buf.maxSize)) % 2 ^ 64 = _
    rw [holds.start, holds.used, Nat.mod_add_mod]

theorem Holds.write_ok (holds : Holds buf past contents) (positive : data ≠ [] → 0 < buf.maxSize)
    (unseen : Unseen buf.maxSize (past + contents.length + data.length)) :
    ∃ next later, buf.write data = .ok next ∧ next.maxSize = buf.maxSize ∧ Holds next later ((contents ++ data).rtake buf.maxSize) ∧
      later + ((contents ++ data).rtake buf.maxSize).length ≤ past + contents.length + data.length := by
  have held := holds.shows.fits
  have size := holds.size
  unfold CircleBuf.write
  split
  next empty =>
    rw [List.isEmpty_iff] at empty
    have all : contents.rtake buf.maxSize = contents := by rw [rtake, Nat.sub_eq_zero_of_le (by omega), drop_zero]
    rw [empty, append_nil, all]
    exact ⟨buf, past, rfl, rfl, holds, by omega⟩
  next filled =>
    have some : data ≠ [] := fun empty => filled (List.isEmpty_iff.mpr empty)
    have length := length_pos_of_ne_nil some
    split
    next large =>
      have last : (data.drop (data.length - buf.maxSize)).length = buf.maxSize := by rw [length_drop]; omega
      obtain ⟨next, written, same, after⟩ := holds.flush.writeFitting_ok _ (positive some) (Nat.le_of_eq last)
        (unseen.mono (by simp; omega))
      have flushed : buf.flush.maxSize = buf.maxSize := rfl
      have kept : (contents ++ data).rtake buf.maxSize = data.drop (data.length - buf.maxSize) := by
        rw [rtake, length_append, drop_append, drop_eq_nil_of_le (by omega), nil_append]
        congr 1
        omega
      rw [nil_append, rtake, flushed, last, Nat.sub_self, drop_zero, length_nil] at after
      rw [kept, last]
      exact ⟨next, _, written, same, after, by omega⟩
    next fits =>
      obtain ⟨next, written, same, after⟩ := holds.writeFitting_ok data (positive some) (Nat.le_of_not_lt fits) (unseen.mono (by omega))
      refine ⟨next, _, written, same, after, ?_⟩
      rw [rtake, length_drop, length_append]
      omega

/-- What the buffer is for: the latest elements, as many as it has room for. -/
def recent (size : ℕ) : Step (List α) (BufOp α) (List α) Abort := fun contents op => do
  match op with
  | .write data => return ((contents ++ data).rtake size, [])
  | .read len =>
    panicIf (decide (contents.length < len)) "Trying to read past end of circular buffer."
    return (contents.drop len, [contents.take len])
  | .peek offset len =>
    panicIf (decide (contents.length < offset + len)) "Trying to read past end of circular buffer."
    return (contents, [(contents.drop offset).take len])
  | .flush => return ([], [])

def written : BufOp α → ℕ
  | .write data => data.length
  | _ => 0

theorem Holds.step (holds : Holds buf past contents) (positive : 0 < buf.maxSize) (op : BufOp α)
    (unseen : Unseen buf.maxSize (past + contents.length + written op)) :
    (∃ failure, buf.step op = .error failure ∧ recent buf.maxSize contents op = .error failure) ∨
      ∃ next later kept labels, buf.step op = .ok (next, labels) ∧ recent buf.maxSize contents op = .ok (kept, labels) ∧
        next.maxSize = buf.maxSize ∧ Holds next later kept ∧ later + kept.length ≤ past + contents.length + written op := by
  cases op with
  | write data =>
    obtain ⟨next, later, ran, same, after, bound⟩ := holds.write_ok (fun _ => positive) unseen
    exact .inr ⟨next, later, _, [], bind_of_ok ran _, rfl, same, after, bound⟩
  | read len =>
    rcases Nat.lt_or_ge contents.length len with short | enough
    · refine .inl ⟨_, ?_, by rw [recent, decide_eq_true short]; rfl⟩
      rw [CircleBuf.step, CircleBuf.read, CircleBuf.peek, holds.used, Nat.zero_add, decide_eq_true short]
      rfl
    · obtain ⟨next, ran, same, after⟩ := holds.read_ok len enough unseen
      refine .inr ⟨next, _, _, _, bind_of_ok ran _, by rw [recent, decide_eq_false (by omega)]; rfl, same, after, ?_⟩
      rw [length_drop]
      omega
  | peek offset len =>
    rcases Nat.lt_or_ge contents.length (offset + len) with short | enough
    · refine .inl ⟨_, ?_, by rw [recent, decide_eq_true short]; rfl⟩
      rw [CircleBuf.step, CircleBuf.peek, holds.used, decide_eq_true short]
      rfl
    · refine .inr ⟨buf, past, contents, _, bind_of_ok (holds.peek_ok enough unseen) _, ?_, rfl, holds, Nat.le_add_right _ _⟩
      rw [recent, decide_eq_false (by omega)]
      rfl
  | flush => exact .inr ⟨_, 0, [], [], rfl, rfl, rfl, holds.flush, Nat.zero_le _⟩

theorem Holds.run (holds : Holds buf past contents) (positive : 0 < buf.maxSize) (ops : List (BufOp α))
    (unseen : Unseen buf.maxSize (past + contents.length + (ops.map written).sum)) :
    (run CircleBuf.step buf ops).map Prod.snd = (run (recent buf.maxSize) contents ops).map Prod.snd := by
  induction ops generalizing buf past contents with
  | nil => rfl
  | cons op ops ih =>
    rw [map_cons, sum_cons] at unseen
    obtain ⟨failure, failed, fails⟩ | ⟨next, later, kept, labels, taken, takes, same, after, bound⟩ :=
      holds.step positive op (unseen.mono (by omega))
    · rw [Lib.run, Lib.run, failed, fails]
      rfl
    · have rest := ih after (by omega) (by rw [same]; exact unseen.mono (by omega))
      rw [same] at rest
      have shown {σ : Type} (ran : Except Abort (σ × List (List α))) :
          (ran >>= fun rest => .ok (rest.1, labels ++ rest.2)).map Prod.snd = (ran.map Prod.snd).map (labels ++ ·) := by
        cases ran <;> rfl
      rw [Lib.run, Lib.run, taken, takes, ok_bind, ok_bind, shown, shown, rest]

/-- The buffer and the list of the latest elements cannot be told apart, unless its counter wraps and
the size is not a power of two. -/
theorem reads_recent [Inhabited α] (size : ℕ) (positive : 0 < size) (ops : List (BufOp α))
    (unseen : size ∣ 2 ^ 64 ∨ (ops.map written).sum ≤ 2 ^ 64) :
    (run CircleBuf.step (.new size) ops).map Prod.snd = (run (recent size) [] ops).map Prod.snd := by
  have holds : Holds (.new size : CircleBuf α) 0 [] := ⟨ nil_prefix, length_replicate, rfl, rfl⟩
  exact holds.run positive ops (unseen.imp_right fun small => by simpa using small)

/-- The second write passes the end of the buffer, and the third one is larger than it. -/
def laps : List (BufOp ℕ) := [.write [1, 2, 3], .read 2, .write [4, 5, 6], .peek 1 2, .write [7, 8, 9, 10, 11], .read 4]

theorem reads_laps : (run CircleBuf.step (.new 4) laps).map Prod.snd = .ok [[1, 2], [4, 5], [8, 9, 10, 11]] :=
  reads_recent 4 (by decide) laps (.inl (by decide))

end CircleBuf

section DmaReadFifo

variable {params : DmaReadFifoParams} {α : Type} {fifo next : DmaReadFifo params α} {ofMemory : Addr → α → Prop}
  {memory : Addr → α} {there : List Addr} {total : ℕ}

theorem write_ok {buf : Fifo α} {past : ℕ} {contents : List α} (holds : Holds buf.buf past contents) (data : List α)
    (fits : contents.length + data.length ≤ buf.capacity) (unseen : Unseen buf.capacity (past + contents.length + data.length)) :
    ∃ after later, buf.write data = .ok after ∧ after.capacity = buf.capacity ∧ Holds after.buf later (contents ++ data) ∧
      later + (contents ++ data).length ≤ past + contents.length + data.length := by
  have positive (some : data ≠ []) : 0 < buf.buf.maxSize := by
    have := length_pos_of_ne_nil some
    change _ ≤ buf.buf.maxSize at fits
    omega
  obtain ⟨after, later, ran, same, held, bound⟩ := holds.write_ok positive unseen
  have all : (contents ++ data).rtake buf.buf.maxSize = contents ++ data := by
    change _ ≤ buf.buf.maxSize at fits
    rw [rtake, length_append, Nat.sub_eq_zero_of_le fits, drop_zero]
  rw [all] at held bound
  refine ⟨⟨after⟩, later, ?_, same, held, bound⟩
  rw [Fifo.write, Fifo.size, holds.used, decide_eq_false (by omega)]
  exact bind_of_ok ran _

def addresses (addr : Addr) (size : ℕ) : List Addr := (range size).map fun i => addr + BitVec.ofNat 64 i

@[simp] theorem length_addresses (addr : Addr) (size : ℕ) : (addresses addr size).length = size := by
  rw [addresses, length_map, length_range]

theorem addresses_add (addr : Addr) (m n : ℕ) : addresses addr (m + n) = addresses addr m ++ addresses (addr + BitVec.ofNat 64 m) n := by
  rw [addresses, range_add, map_append, map_map]
  congr 1
  refine map_congr_left fun i _ => ?_
  rw [Function.comp_apply, BitVec.ofNat_add, BitVec.add_assoc]

theorem bytesAt_matches (truthful : ∀ a, ofMemory a (memory a)) (addr : Addr) (size : ℕ) :
    Forall₂ ofMemory (addresses addr size) (bytesAt memory addr size) := by
  rw [addresses, bytesAt, forall₂_map_left_iff, forall₂_map_right_iff, forall₂_same]
  exact fun i _ => truthful _

/-- The addresses of which bytes will still come in. -/
def coming (fifo : DmaReadFifo params α) : List Addr :=
  (fifo.pendingRequests.map fun event => if event.canceled then [] else addresses event.addr event.requestSize).flatten ++
    addresses fifo.nextAddr (fifo.endAddr - fifo.nextAddr).toNat

def pendingSize (fifo : DmaReadFifo params α) : ℕ := (fifo.pendingRequests.map DmaDoneEvent.requestSize).sum

/-- The room for which the FIFO asks for more. -/
def needed (params : DmaReadFifoParams) : ℕ :=
  if params.bypassCaches then if params.fifoSize < params.cacheLineSize then 1 else max 1 params.cacheLineSize else params.maxReqSize

def Asked (fifo : DmaReadFifo params α) : Prop := 0 < params.maxPending → fifo.pendingRequests = [] →
  fifo.atEndOfBlock = true ∨ params.fifoSize < fifo.buffer.size + needed params

def due (fifo : DmaReadFifo params α) : ℕ := pendingSize fifo + (fifo.endAddr - fifo.nextAddr).toNat

/-- What is there is from these addresses, and there is room for all that was asked for. -/
structure Good (ofMemory : Addr → α → Prop) (fifo : DmaReadFifo params α) (there : List Addr) (total : ℕ) : Prop where
  capacity : fifo.buffer.capacity = params.fifoSize
  held : ∃ past contents, Holds fifo.buffer.buf past contents ∧ Forall₂ ofMemory there contents ∧
    past + contents.length + due fifo ≤ total
  room : there.length + pendingSize fifo ≤ params.fifoSize
  arrived : ∀ event ∈ fifo.pendingRequests, event.done = true → Forall₂ ofMemory (addresses event.addr event.requestSize) event.data
  bypass : params.bypassCaches = true → fifo.pendingRequests = []
  events : fifo.freeRequests + fifo.pendingRequests.length = params.maxPending
  draining : fifo.drainState = .draining → fifo.pendingRequests ≠ []

theorem Good.size (good : Good ofMemory fifo there total) : fifo.buffer.size = there.length := by
  obtain ⟨_, _, holds, matched, _⟩ := good.held
  exact holds.used.trans matched.length_eq.symm

/-- The FIFO is still good, and the bytes that it has and will have are of the same addresses. -/
def Keeps (ofMemory : Addr → α → Prop) (promised : List Addr) (total : ℕ) (next : DmaReadFifo params α) : Prop :=
  ∃ there, Good ofMemory next there total ∧ there ++ coming next = promised

theorem sent (start stop : Addr) {size : ℕ} (part : size ≤ (stop - start).toNat) :
    (stop - (start + BitVec.ofNat 64 size)).toNat = (stop - start).toNat - size := by
  have small := (stop - start).isLt
  bv_omega

theorem Good.fillFrom (good : Good ofMemory fifo there total) (timing : params.bypassCaches = false) (free : ℕ)
    (all : fifo.freeRequests = free) :
    Good ofMemory (fifo.fillFrom free (pendingSize fifo)) there total ∧
      coming (fifo.fillFrom free (pendingSize fifo)) = coming fifo ∧ Asked (fifo.fillFrom free (pendingSize fifo)) := by
  have events := good.events
  induction free generalizing fifo with
  | zero =>
    refine ⟨good, rfl, fun some none => ?_⟩
    change fifo.pendingRequests = [] at none
    rw [all, none] at events
    exact absurd events (Nat.ne_of_lt some)
  | succ free ih =>
    unfold DmaReadFifo.fillFrom
    split
    next stop => exact ⟨good, rfl, fun _ _ => .inl stop⟩
    dsimp only
    split
    next full =>
      refine ⟨good, rfl, fun _ none => .inr ?_⟩
      rw [pendingSize, none, map_nil, sum_nil] at full
      rw [needed, timing]
      change _ < _ + params.maxReqSize
      omega
    next more =>
      generalize part : min params.maxReqSize (fifo.endAddr - fifo.nextAddr).toNat = reqSize at *
      have le : reqSize ≤ (fifo.endAddr - fifo.nextAddr).toNat := part ▸ Nat.min_le_right _ _
      let issued : DmaReadFifo params α := { fifo with
        freeRequests := free
        nextAddr := fifo.nextAddr + BitVec.ofNat 64 reqSize
        pendingRequests := fifo.pendingRequests ++ [{ addr := fifo.nextAddr, requestSize := reqSize }] }
      have larger : pendingSize issued = pendingSize fifo + reqSize := by
        simp [pendingSize, issued]
      have left : (issued.endAddr - issued.nextAddr).toNat = (fifo.endAddr - fifo.nextAddr).toNat - reqSize := sent _ _ le
      have same : coming issued = coming fifo := by
        rw [coming, coming, left]
        conv_rhs => rw [← Nat.add_sub_cancel' le, addresses_add]
        simp [issued]
      have balanced : issued.freeRequests + issued.pendingRequests.length = params.maxPending := by
        simp only [issued, length_append, length_singleton]
        omega
      have after : Good ofMemory issued there total := by
        obtain ⟨past, contents, holds, matched, bound⟩ := good.held
        refine ⟨good.capacity, ⟨past, contents, holds, matched, by rw [due, larger, left]; rw [due] at bound; omega⟩, ?_, fun event member done => ?_, ?_,
          balanced, fun _ => concat_ne_nil _ _⟩
        · rw [larger, ← good.size]
          omega
        · rcases mem_concat.mp member with old | rfl
          · exact good.arrived event old done
          · cases done
        · rw [timing]
          exact nofun
      obtain ⟨kept, still, asked⟩ := ih after rfl balanced
      rw [larger] at kept still asked
      exact ⟨kept, still.trans same, asked⟩

theorem Good.append (good : Good ofMemory fifo there total) (unseen : Unseen params.fifoSize total) {added : List Addr} {data : List α}
    (matched : Forall₂ ofMemory added data) (fits : there.length + data.length ≤ params.fifoSize)
    (owed : data.length ≤ due fifo) :
    ∃ buffer, fifo.buffer.write data = .ok buffer ∧ buffer.capacity = params.fifoSize ∧
      ∃ past contents, Holds buffer.buf past contents ∧ Forall₂ ofMemory (there ++ added) contents ∧
        past + contents.length + (due fifo - data.length) ≤ total := by
  obtain ⟨past, contents, holds, here, bound⟩ := good.held
  have length := here.length_eq
  obtain ⟨after, later, ran, same, held, less⟩ := write_ok holds data (by rw [good.capacity]; omega)
    (by rw [good.capacity]; exact unseen.mono (by omega))
  exact ⟨after, ran, same.trans good.capacity, later, _, held, rel_append here matched, by omega⟩

theorem Good.resumeFillBypass (good : Good ofMemory fifo there total) (unseen : Unseen params.fifoSize total)
    (truthful : ∀ a, ofMemory a (memory a)) (bypass : params.bypassCaches = true) :
    ∃ next, fifo.resumeFillBypass memory = .ok next ∧ Keeps ofMemory (there ++ coming fifo) total next ∧ Asked next := by
  have none := good.bypass bypass
  have idle : pendingSize fifo = 0 := by rw [pendingSize, none, map_nil, sum_nil]
  have size := good.size
  have capacity := good.capacity
  have room := good.room
  unfold DmaReadFifo.resumeFillBypass
  dsimp only
  split
  · generalize part : min (fifo.buffer.capacity - fifo.buffer.size) (fifo.endAddr - fifo.nextAddr).toNat = xferSize
    have le : xferSize ≤ (fifo.endAddr - fifo.nextAddr).toNat := part ▸ Nat.min_le_right _ _
    have fits : xferSize ≤ fifo.buffer.capacity - fifo.buffer.size := part ▸ Nat.min_le_left _ _
    have length : (bytesAt memory fifo.nextAddr xferSize).length = xferSize := by rw [bytesAt, length_map, length_range]
    obtain ⟨buffer, ran, same, past, contents, holds, matched, bound⟩ :=
      good.append unseen (bytesAt_matches truthful fifo.nextAddr xferSize) (by omega) (by rw [due]; omega)
    have left := sent fifo.nextAddr fifo.endAddr le
    have ready : require fifo.pendingRequests.isEmpty "pendingRequests.empty()" = .ok () := by rw [none]; rfl
    refine ⟨_, (bind_of_ok ready _).trans (bind_of_ok ran _), ⟨_, ⟨same, ⟨past, contents, holds, matched, ?_⟩, ?_, ?_, fun _ => none,
      good.events, good.draining⟩, ?_⟩, fun _ _ => ?_⟩
    · change _ + (pendingSize fifo + (fifo.endAddr - (fifo.nextAddr + BitVec.ofNat 64 xferSize)).toNat) ≤ _
      rw [due] at bound
      omega
    · change _ + pendingSize fifo ≤ _
      rw [length_append, length_addresses]
      omega
    · rw [none]
      exact nofun
    · rw [coming, coming, none, left]
      conv_rhs => rw [← Nat.add_sub_cancel' le, addresses_add]
      simp
    · have full := holds.used
      rw [← matched.length_eq, length_append, length_addresses] at full
      change (_ == _) = true ∨ params.fifoSize < buffer.buf.used + _
      rcases Nat.eq_zero_or_pos ((fifo.endAddr - fifo.nextAddr).toNat - xferSize) with done | part
      · refine .inl (beq_iff_eq.mpr ?_)
        bv_omega
      · rw [needed, if_pos bypass]
        split <;> omega
  · refine ⟨fifo, rfl, ⟨there, good, rfl⟩, fun _ _ => .inr ?_⟩
    rw [needed, if_pos bypass]
    split <;> omega

theorem Good.resumeFill (good : Good ofMemory fifo there total) (unseen : Unseen params.fifoSize total)
    (truthful : ∀ a, ofMemory a (memory a)) :
    ∃ next endOfBlock, fifo.resumeFill memory = .ok (next, endOfBlock) ∧ Keeps ofMemory (there ++ coming fifo) total next ∧ Asked next := by
  unfold DmaReadFifo.resumeFill
  split
  next drains => exact ⟨fifo, false, rfl, ⟨there, good, rfl⟩, fun _ none => absurd none (good.draining drains)⟩
  · cases mode : params.bypassCaches with
    | true =>
      obtain ⟨next, ran, keeps⟩ := good.resumeFillBypass unseen truthful mode
      exact ⟨next, _, bind_of_ok ran _, keeps⟩
    | false =>
      obtain ⟨kept, same, asked⟩ := good.fillFrom mode _ rfl
      exact ⟨_, _, rfl, ⟨there, kept, by rw [← same]; rfl⟩, asked⟩

def inState (fifo : DmaReadFifo params α) (state : DrainState) : DmaReadFifo params α := { fifo with drainState := state }

theorem Good.moved (good : Good ofMemory fifo there total) {state : DrainState} (draining : state = .draining → fifo.pendingRequests ≠ []) :
    Good ofMemory (inState fifo state) there total :=
  ⟨good.capacity, good.held, good.room, good.arrived, good.bypass, good.events, draining⟩

def withPending (fifo : DmaReadFifo params α) (requests : List (DmaDoneEvent α)) : DmaReadFifo params α :=
  inState { fifo with pendingRequests := requests } .running

theorem coming_cons (fifo : DmaReadFifo params α) (event : DmaDoneEvent α) (rest : List (DmaDoneEvent α)) :
    coming (withPending fifo (event :: rest)) =
      (if event.canceled then [] else addresses event.addr event.requestSize) ++ coming (withPending fifo rest) :=
  append_assoc _ _ _

theorem due_cons (fifo : DmaReadFifo params α) (event : DmaDoneEvent α) (rest : List (DmaDoneEvent α)) :
    due (withPending fifo (event :: rest)) = event.requestSize + due (withPending fifo rest) :=
  Nat.add_assoc _ _ _

/-- By induction on the requests. Those that are done and not cancelled come in, in their order. -/
theorem Good.handleFrom (requests : List (DmaDoneEvent α)) (unseen : Unseen params.fifoSize total)
    (good : Good ofMemory (withPending fifo requests) there total) :
    ∃ next, DmaReadFifo.handleFrom requests fifo = .ok next ∧
      Keeps ofMemory (there ++ coming (withPending fifo requests)) total (inState next .running) := by
  induction requests generalizing fifo there with
  | nil => exact ⟨_, rfl, there, good, rfl⟩
  | cons event rest ih =>
    unfold DmaReadFifo.handleFrom
    have all : pendingSize (withPending fifo (event :: rest)) = event.requestSize + pendingSize (withPending fifo rest) := rfl
    have room := good.room
    have owed := due_cons fifo event rest
    cases done : event.done with
    | false => exact ⟨_, rfl, there, good, rfl⟩
    | true =>
      have matched := good.arrived event mem_cons_self done
      have bypass (mode : params.bypassCaches = true) : rest = [] := nomatch good.bypass mode
      have arrived (other) (member : other ∈ rest) := good.arrived other (mem_cons_of_mem _ member)
      have events := good.events
      have balanced : fifo.freeRequests + 1 + rest.length = params.maxPending := (Nat.succ_add_eq_add_succ _ _).trans events
      cases canceled : event.canceled with
      | true =>
        obtain ⟨past, contents, holds, here, bound⟩ := good.held
        let freed : DmaReadFifo params α := { fifo with freeRequests := fifo.freeRequests + 1 }
        have after : Good ofMemory (withPending freed rest) there total := by
          refine ⟨good.capacity, ⟨past, contents, holds, here, ?_⟩, ?_, arrived, bypass, balanced, nofun⟩
          · change _ + due (withPending fifo rest) ≤ _
            omega
          · change _ + pendingSize (withPending fifo rest) ≤ _
            omega
        obtain ⟨next, ran, keeps⟩ := ih after
        refine ⟨next, ran, ?_⟩
        rw [coming_cons, canceled]
        exact keeps
      | false =>
        have length : event.data.length = event.requestSize := by rw [← matched.length_eq, length_addresses]
        obtain ⟨buffer, write, same, past, contents, holds, here, bound⟩ := good.append unseen matched (by omega) (by omega)
        let freed : DmaReadFifo params α := { fifo with
          buffer
          freeRequests := fifo.freeRequests + 1 }
        have after : Good ofMemory (withPending freed rest) (there ++ addresses event.addr event.requestSize) total := by
          refine ⟨same, ⟨past, contents, holds, here, ?_⟩, ?_, arrived, bypass, balanced, nofun⟩
          · change _ + due (withPending fifo rest) ≤ _
            omega
          · change _ + pendingSize (withPending fifo rest) ≤ _
            rw [length_append, length_addresses]
            omega
        obtain ⟨next, ran, keeps⟩ := ih after
        refine ⟨next, (bind_of_ok write _).trans ran, ?_⟩
        rw [coming_cons, canceled, ← append_assoc]
        exact keeps

theorem map_set_same {β γ : Type} (g : β → γ) {list : List β} {i : ℕ} {old new : β} (here : list[i]? = some old)
    (same : g new = g old) : (list.set i new).map g = list.map g := by
  obtain ⟨inside, rfl⟩ := List.getElem?_eq_some_iff.mp here
  rw [map_set, same, ← getElem_map g (h := by rwa [length_map]), set_getElem_self]

theorem Good.handlePending (good : Good ofMemory fifo there total) (unseen : Unseen params.fifoSize total) :
    ∃ next, fifo.handlePending = .ok next ∧ Keeps ofMemory (there ++ coming fifo) total next := by
  obtain ⟨handled, ran, after, kept, same⟩ := Good.handleFrom fifo.pendingRequests unseen (good.moved nofun)
  have drained {state : DrainState} (draining : state = .draining → handled.pendingRequests ≠ []) :
      Keeps ofMemory (there ++ coming fifo) total (inState handled state) := ⟨after, kept.moved draining, same⟩
  refine ⟨_, bind_of_ok ran _, ?_⟩
  split
  · unfold DmaReadFifo.signalDrainDone
    split
    · exact drained nofun
    next awake => exact drained fun draining => absurd draining awake
  next some => exact drained fun _ none => some (List.isEmpty_iff.mpr none)

theorem Good.process (good : Good ofMemory fifo there total) (unseen : Unseen params.fifoSize total)
    (truthful : ∀ a, ofMemory a (memory a)) {index : ℕ} (waits : ∃ event, fifo.pendingRequests[index]? = some event ∧ event.done = false) :
    ∃ next endOfBlock idle, fifo.process index memory = .ok (next, endOfBlock, idle) ∧ Keeps ofMemory (there ++ coming fifo) total next ∧ Asked next := by
  obtain ⟨event, here, pending⟩ := waits
  let answered := { event with
    done := true
    data := bytesAt memory event.addr event.requestSize }
  let arrived : DmaReadFifo params α := { fifo with pendingRequests := fifo.pendingRequests.set index answered }
  have size : pendingSize arrived = pendingSize fifo := congrArg sum (map_set_same _ here rfl)
  have same : coming arrived = coming fifo := congrArg (flatten · ++ _) (map_set_same _ here rfl)
  obtain ⟨past, contents, holds, matched, bound⟩ := good.held
  have after : Good ofMemory arrived there total := by
    refine ⟨good.capacity, ⟨past, contents, holds, matched, ?_⟩, ?_, fun other member done => ?_, fun mode => ?_,
      (congrArg _ length_set).trans good.events, fun drains none => good.draining drains (by simpa [arrived] using none)⟩
    · rw [due, size]
      exact bound
    · rw [size]
      exact good.room
    · rcases mem_or_eq_of_mem_set member with old | rfl
      · exact good.arrived other old done
      · exact bytesAt_matches truthful _ _
    · rw [good.bypass mode] at here
      cases here
  obtain ⟨handled, ran, middle, kept, still⟩ := after.handlePending unseen
  obtain ⟨next, endOfBlock, filled, keeps⟩ := kept.resumeFill unseen truthful
  rw [still, same] at keeps
  have processed : fifo.process index memory = arrived.dmaDone memory := by
    rw [DmaReadFifo.process, here]
    dsimp only
    rw [pending]
    rfl
  exact ⟨next, endOfBlock, _, processed.trans ((bind_of_ok ran _).trans (bind_of_ok filled _)), keeps⟩

theorem Good.tryGet (good : Good ofMemory fifo there total) (unseen : Unseen params.fifoSize total)
    (truthful : ∀ a, ofMemory a (memory a)) (len : ℕ) :
    ∃ got next endOfBlock, fifo.tryGet len memory = .ok (got, next, endOfBlock) ∧
      got.map length = (if len ≤ fifo.buffer.size then some len else none) ∧
      (∀ bytes, got = some bytes → Forall₂ ofMemory (there.take bytes.length) bytes) ∧
      Keeps ofMemory (there.drop (got.elim 0 length) ++ coming fifo) total next ∧ (Asked fifo → Asked next) := by
  unfold DmaReadFifo.tryGet
  split
  next enough =>
    obtain ⟨past, contents, holds, matched, bound⟩ := good.held
    have size := good.size
    have length := matched.length_eq
    obtain ⟨buf, ran, same, after⟩ := holds.read_ok len (by omega)
      (by
        have capacity : fifo.buffer.buf.maxSize = params.fifoSize := good.capacity
        rw [capacity]
        exact unseen.mono (by omega))
    let taken : DmaReadFifo params α := { fifo with buffer := ⟨buf⟩ }
    have room := good.room
    have kept : Good ofMemory taken (there.drop len) total := by
      refine ⟨same.trans good.capacity, ⟨_, _, after, forall₂_drop len matched, ?_⟩, ?_, good.arrived, good.bypass, good.events, good.draining⟩
      · change _ + due fifo ≤ _
        rw [length_drop]
        omega
      · change _ + pendingSize fifo ≤ _
        rw [length_drop]
        omega
    obtain ⟨next, endOfBlock, filled, keeps, asked⟩ := kept.resumeFill unseen truthful
    have taken_length : (contents.take len).length = len := by rw [length_take]; omega
    have read : fifo.buffer.read len = .ok (contents.take len, ⟨buf⟩) := bind_of_ok ran _
    refine ⟨some (contents.take len), next, endOfBlock, (bind_of_ok read _).trans (bind_of_ok filled _), congrArg some taken_length, ?_, ?_, fun _ => asked⟩
    · rintro _ ⟨⟩
      rw [taken_length]
      exact forall₂_take len matched
    · rw [Option.elim_some, taken_length]
      exact keeps
  next => exact ⟨none, fifo, false, rfl, rfl, nofun, ⟨there, good, rfl⟩, id⟩

theorem Good.startFill (good : Good ofMemory fifo there total) (atEnd : fifo.atEndOfBlock = true) {start size : Addr}
    (unseen : Unseen params.fifoSize (total + size.toNat)) (truthful : ∀ a, ofMemory a (memory a)) :
    ∃ next endOfBlock, fifo.startFill start size memory = .ok (next, endOfBlock) ∧
      Keeps ofMemory (there ++ coming fifo ++ addresses start size.toNat) (total + size.toNat) next ∧ Asked next := by
  let started : DmaReadFifo params α := { fifo with
    nextAddr := start
    endAddr := start + size }
  have none : (fifo.endAddr - fifo.nextAddr).toNat = 0 := by
    rw [DmaReadFifo.atEndOfBlock, beq_iff_eq] at atEnd
    rw [atEnd, BitVec.sub_self]
    rfl
  have all : (started.endAddr - started.nextAddr).toNat = size.toNat := by
    change (start + size - start).toNat = _
    congr 1
    bv_omega
  have more : coming started = coming fifo ++ addresses start size.toNat := by
    rw [coming, coming, none, all]
    simp [started, addresses]
  obtain ⟨past, contents, holds, matched, bound⟩ := good.held
  have after : Good ofMemory started there (total + size.toNat) := by
    refine ⟨good.capacity, ⟨past, contents, holds, matched, ?_⟩, good.room, good.arrived, good.bypass, good.events, good.draining⟩
    rw [due, none] at bound
    rw [due, all]
    change _ + (pendingSize fifo + _) ≤ _
    omega
  obtain ⟨next, endOfBlock, filled, keeps⟩ := after.resumeFill unseen truthful
  rw [more, ← append_assoc] at keeps
  exact ⟨next, endOfBlock, by rw [DmaReadFifo.startFill, atEnd]; exact filled, keeps⟩

/-- The addresses of which bytes are still to be got: those of a block when it is started, less those
got, those flushed, and when it is stopped those that are not there yet. -/
def promise (promised : List Addr) : DmaOp × DmaLabel α → List Addr
  | (.startFill start size, _) => promised ++ addresses start size.toNat
  | (.stopFill, label) => promised.take label.size
  | (.flush, label) => promised.drop label.size
  | (_, label) => promised.drop (label.got.elim 0 length)

structure Served (ofMemory : Addr → α → Prop) (promised : List Addr) (op : DmaOp) (label : DmaLabel α) : Prop where
  answer : ∀ len, op = .tryGet len → label.got.map length = if len ≤ label.size then some len else none
  bytes : ∀ bytes, label.got = some bytes → Forall₂ ofMemory (promised.take bytes.length) bytes

def Delivered (ofMemory : Addr → α → Prop) : List Addr → List (DmaOp × DmaLabel α) → Prop
  | _, [] => True
  | promised, entry :: rest => Served ofMemory promised entry.1 entry.2 ∧ Delivered ofMemory (promise promised entry) rest

/-- A block is started when the last one has been asked for, and the port answers what waits. -/
def Allowed (fifo : DmaReadFifo params α) (call : DmaOp × (Addr → α)) : Prop :=
  match call.1 with
  | .startFill _ _ => fifo.atEndOfBlock = true
  | .process index => ∃ event, fifo.pendingRequests[index]? = some event ∧ event.done = false
  | _ => True

/-- A flush alone does not ask for more. -/
def FlushesAtEnd (fifo : DmaReadFifo params α) (call : DmaOp × (Addr → α)) : Prop := call.1 = .flush → fifo.atEndOfBlock = true

def asked : DmaOp → ℕ
  | .startFill _ size => size.toNat
  | _ => 0

theorem Good.step (good : Good ofMemory fifo there total) (call : DmaOp × (Addr → α)) (allowed : Allowed fifo call)
    (unseen : Unseen params.fifoSize (total + asked call.1)) (truthful : ∀ a, ofMemory a (call.2 a)) :
    ∃ next label, fifo.step call = .ok (next, [(call.1, label)]) ∧ Served ofMemory (there ++ coming fifo) call.1 label ∧
      Keeps ofMemory (promise (there ++ coming fifo) (call.1, label)) (total + asked call.1) next ∧
      (FlushesAtEnd fifo call → Asked fifo → Asked next) := by
  obtain ⟨op, memory⟩ := call
  obtain ⟨past, contents, holds, matched, bound⟩ := good.held
  have size := good.size
  have silent {op : DmaOp} {label : DmaLabel α} (other : ∀ len, op ≠ .tryGet len) (none : label.got = none) :
      Served ofMemory (there ++ coming fifo) op label :=
    ⟨fun len same => absurd same (other len), fun bytes some => absurd (none.symm.trans some) nofun⟩
  cases op with
  | startFill start size =>
    obtain ⟨next, endOfBlock, ran, keeps, asks⟩ := good.startFill allowed unseen truthful
    exact ⟨next, _, bind_of_ok ran _, silent nofun rfl, keeps, fun _ _ => asks⟩
  | stopFill =>
    refine ⟨_, _, rfl, silent nofun rfl, ⟨there, ⟨good.capacity, ⟨past, contents, holds, matched, ?_⟩, ?_, ?_, ?_, ?_, ?_⟩, ?_⟩,
      fun _ _ _ _ => .inl (beq_self_eq_true _)⟩
    · change _ + ((map _ (map _ _)).sum + (fifo.endAddr - fifo.endAddr).toNat) ≤ total
      rw [map_map, BitVec.sub_self]
      change _ + (pendingSize fifo + 0) ≤ total
      rw [due] at bound
      omega
    · change _ + (map _ (map _ _)).sum ≤ _
      rw [map_map]
      exact good.room
    · intro event member done
      obtain ⟨old, inside, rfl⟩ := mem_map.mp member
      exact good.arrived old inside done
    · exact fun mode => congrArg (map _) (good.bypass mode)
    · exact (congrArg _ (length_map _)).trans good.events
    · exact fun drains => mt map_eq_nil_iff.mp (good.draining drains)
    · have nothing : coming fifo.stopFill = [] := by simp [coming, DmaReadFifo.stopFill, addresses]
      change _ = (there ++ coming fifo).take fifo.buffer.size
      rw [nothing, size, take_left, append_nil]
  | tryGet len =>
    obtain ⟨got, next, endOfBlock, ran, answer, bytes, keeps, asks⟩ := good.tryGet unseen truthful len
    have inside (bytes' : List α) (some : got = some bytes') : bytes'.length ≤ there.length := by
      have length := (bytes bytes' some).length_eq
      rw [length_take] at length
      omega
    refine ⟨next, _, bind_of_ok ran _, ⟨?_, fun bytes' some => ?_⟩, ?_, fun _ => asks⟩
    · rintro _ ⟨⟩
      exact answer
    · rw [take_append_of_le_length (inside bytes' some)]
      exact bytes bytes' some
    · change Keeps _ (drop (got.elim 0 length) _) total next
      rw [drop_append_of_le_length]
      · exact keeps
      · cases got with
        | none => exact Nat.zero_le _
        | some bytes' => exact inside bytes' rfl
  | flush =>
    have room := good.room
    refine ⟨_, _, rfl, silent nofun rfl, ⟨[], ⟨good.capacity, ⟨0, [], holds.flush, .nil, ?_⟩, ?_, good.arrived, good.bypass,
      good.events, good.draining⟩, ?_⟩, fun atEnd _ _ _ => .inl (atEnd rfl)⟩
    · change 0 + 0 + due fifo ≤ total
      omega
    · change 0 + pendingSize fifo ≤ _
      omega
    · change coming fifo = (there ++ coming fifo).drop fifo.buffer.size
      rw [size, drop_left]
  | process index =>
    obtain ⟨next, endOfBlock, idle, ran, keeps, asks⟩ := good.process unseen truthful allowed
    exact ⟨next, _, bind_of_ok ran _, silent nofun rfl, keeps, fun _ _ => asks⟩
  | drain =>
    refine ⟨_, _, rfl, silent nofun rfl, ⟨there, good.moved ?_, rfl⟩, fun _ => id⟩
    cases fifo.pendingRequests <;> exact nofun
  | drainResume => exact ⟨_, _, rfl, silent nofun rfl, ⟨there, good.moved nofun, rfl⟩, fun _ => id⟩

theorem Good.run (good : Good ofMemory fifo there total) {calls : List (DmaOp × (Addr → α))}
    (truthful : ∀ call ∈ calls, ∀ a, ofMemory a (call.2 a))
    (unseen : Unseen params.fifoSize (total + (calls.map fun call => asked call.1).sum))
    (each : Each DmaReadFifo.step Allowed fifo calls) :
    ∃ final log, run DmaReadFifo.step fifo calls = .ok (final, log) ∧ Delivered ofMemory (there ++ coming fifo) log ∧
      (Each DmaReadFifo.step FlushesAtEnd fifo calls → Asked fifo → Asked final) := by
  induction calls generalizing fifo there total with
  | nil => exact ⟨fifo, [], rfl, trivial, fun _ => id⟩
  | cons call calls ih =>
    obtain ⟨here, later⟩ := forall_mem_cons.mp truthful
    rw [map_cons, sum_cons] at unseen
    obtain ⟨next, label, taken, served, ⟨after, kept, same⟩, asks⟩ := good.step call each.1 (unseen.mono (by omega)) here
    obtain ⟨final, log, ran, delivered, later⟩ := ih kept later (by rwa [Nat.add_assoc]) (each.cons taken)
    rw [same] at delivered
    exact ⟨final, _, run_cons.mpr ⟨next, _, log, taken, ran, rfl⟩, ⟨served, delivered⟩,
      fun atEnd asked => later (atEnd.cons taken) (asks atEnd.1 asked)⟩

theorem Good.new [Inhabited α] (params : DmaReadFifoParams) (ofMemory : Addr → α → Prop) :
    Good ofMemory (.new params) [] 0 where
  capacity := rfl
  held := ⟨0, [], ⟨ nil_prefix, length_replicate, rfl, rfl⟩, .nil, by simp [due, pendingSize, DmaReadFifo.new]⟩
  room := Nat.zero_le _
  arrived := nofun
  bypass := fun _ => rfl
  events := rfl
  draining := nofun

section Runs

variable [Inhabited α] (params) (calls : List (DmaOp × (Addr → α)))
  (unseen : params.fifoSize ∣ 2 ^ 64 ∨ (calls.map fun call => asked call.1).sum ≤ 2 ^ 64)
  (each : Each DmaReadFifo.step Allowed (.new params) calls)
include unseen each

/-- In whatever order the port answers, nothing overfills the FIFO, and what is got from it are the bytes of
the blocks, in the order of their addresses. -/
theorem gets_blocks (ofMemory : Addr → α → Prop) (truthful : ∀ call ∈ calls, ∀ a, ofMemory a (call.2 a)) :
    ∃ final log, run DmaReadFifo.step (.new params) calls = .ok (final, log) ∧ Delivered ofMemory [] log := by
  have nothing : coming (.new params : DmaReadFifo params α) = [] := by simp [coming, DmaReadFifo.new, addresses]
  obtain ⟨final, log, ran, delivered, _⟩ := (Good.new params ofMemory).run truthful (unseen.imp_right fun small => by omega) each
  rw [nothing] at delivered
  exact ⟨final, log, ran, delivered⟩

/-- Nor does the FIFO wait when it could ask for more: unless it is flushed within a block, there is a request
under way, or all of the block was asked for, or there is no room. -/
theorem never_stalls (some : 0 < params.maxPending) (atEnd : Each DmaReadFifo.step FlushesAtEnd (.new params) calls)
    {final : DmaReadFifo params α} {log : List (DmaOp × DmaLabel α)}
    (ran : run DmaReadFifo.step (.new params) calls = .ok (final, log)) (none : final.pendingRequests = []) :
    final.atEndOfBlock = true ∨ params.fifoSize < final.buffer.size + needed params := by
  obtain ⟨_, _, same, _, asks⟩ := (Good.new params fun _ _ => True).run (fun _ _ _ => trivial) (unseen.imp_right fun small => by omega) each
  cases ran.symm.trans same
  exact asks atEnd (fun _ _ => .inl rfl) some none

end Runs

def outOfOrder : List (DmaOp × (Addr → Addr)) :=
  [.startFill 16 12, .process 1, .tryGet 4, .process 0, .tryGet 6, .process 0, .tryGet 6].map fun op => (op, id)

def eightBytes : DmaReadFifoParams := { fifoSize := 8, maxReqSize := 4, maxPending := 2 }

theorem allowed_outOfOrder : Each DmaReadFifo.step Allowed (.new eightBytes) outOfOrder :=
  ⟨rfl, ⟨_, rfl, rfl⟩, trivial, ⟨_, rfl, rfl⟩, trivial, ⟨_, rfl, rfl⟩, trivial, trivial⟩

theorem gets_outOfOrder : ∃ final log,
    run DmaReadFifo.step (.new eightBytes) outOfOrder = .ok (final, log) ∧ Delivered (fun addr byte => byte = addr) [] log :=
  gets_blocks _ _ (.inl (by decide)) allowed_outOfOrder _ (by simp [outOfOrder])

theorem asks_outOfOrder : ∃ final log, run DmaReadFifo.step (.new eightBytes) outOfOrder = .ok (final, log) ∧
    (final.atEndOfBlock = true ∨ 8 < final.buffer.size + 4) :=
  ⟨_, _, rfl, never_stalls _ _ (.inl (by decide)) allowed_outOfOrder (by decide)
    ⟨nofun, nofun, nofun, nofun, nofun, nofun, nofun, trivial⟩ rfl rfl⟩

end DmaReadFifo

end ImcGem5.Dev.Proofs.DmaReadFifo
