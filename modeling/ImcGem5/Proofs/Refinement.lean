import ImcGem5.Isa.Reference
import ImcGem5.Proofs.Delivery

/-! Does an in-memory instruction do what it replaces? It looks at one translation per
operand, all of them for reading, and at no fault; so it does exactly where one such
translation says everything there is to say about the eight bytes. -/

namespace ImcGem5.Isa.Proofs
open Lib Mem Mem.Proofs
open List hiding span

variable {φ : Type} {mmu : Translation φ} {mode : AccessMode} {vaddr paddr : Addr} {parts : List (Addr × Nat)} {mem : AbstractMemory}
  {vaddrs paddrs : List Addr} {loaded : List (Word × Effect)} {regs : RegFile} {inst : ImcInst} {ctrl : MemCtrl}

/-- One translation speaks for all eight bytes: a second page, if there is one, is
mapped right behind the first. -/
structure Smooth (mmu : Translation φ) (mode : AccessMode) (vaddr paddr : Addr) : Prop where
  first : mmu vaddr mode = .ok paddr
  second : room vaddr < 8 → ∃ next, mmu (vaddr + BitVec.ofNat 64 (room vaddr)) mode = .ok next ∧
    next.toNat = paddr.toNat + room vaddr

def paddrOf (mmu : Translation φ) (vaddr : Addr) : Addr :=
  match mmu vaddr .read with
  | .ok paddr => paddr
  | .error _ => 0

theorem room_pos (vaddr : Addr) : 0 < room vaddr := by
  unfold room
  omega

theorem translatePieces_cases (ran : translatePieces mmu mode (pieces vaddr) = .ok parts) :
    (8 ≤ room vaddr ∧ ∃ paddr, mmu vaddr mode = .ok paddr ∧ parts = [(paddr, 8)]) ∨
    (room vaddr < 8 ∧ ∃ paddr next, mmu vaddr mode = .ok paddr ∧
      mmu (vaddr + BitVec.ofNat 64 (room vaddr)) mode = .ok next ∧
      parts = [(paddr, room vaddr), (next, 8 - room vaddr)]) := by
  unfold pieces at ran
  split at ran
  next whole =>
    obtain ⟨paddr, first, ran⟩ := of_bind ran
    cases ran
    exact .inl ⟨whole, paddr, first, rfl⟩
  next crossing =>
    obtain ⟨paddr, first, ran⟩ := of_bind ran
    obtain ⟨_, others, ran⟩ := of_bind ran
    obtain ⟨next, second, others⟩ := of_bind others
    cases others
    cases ran
    exact .inr ⟨by omega, paddr, next, first, second, rfl⟩

theorem translatePieces_smooth (smooth : Smooth mmu mode vaddr paddr) : ∃ parts, translatePieces mmu mode (pieces vaddr) = .ok parts := by
  unfold pieces
  split
  · exact ⟨[(paddr, 8)], by simp only [translatePieces, smooth.first, ok_bind]; rfl⟩
  next crossing =>
    obtain ⟨next, second, _⟩ := smooth.second (by omega)
    exact ⟨[(paddr, room vaddr), (next, 8 - room vaddr)], by
      simp only [translatePieces, smooth.first, second, ok_bind]; rfl⟩

theorem span_append (paddr next : Addr) (first second : Nat) (after : next.toNat = paddr.toNat + first) :
    span paddr (first + second) = span paddr first ++ span next second := by
  simp only [span, range_add, map_append, map_map]
  congr 1
  apply map_congr_left
  intro offset _
  simp only [Function.comp_apply, after]
  omega

theorem span_getElem? (paddr : Addr) {length offset : Nat} (inside : offset < length) :
    (span paddr length)[offset]? = some (paddr.toNat + offset) := by
  simp [span, inside]

theorem bytesOf_iff_smooth (ran : translatePieces mmu mode (pieces vaddr) = .ok parts) :
    bytesOf parts = span paddr 8 ↔ Smooth mmu mode vaddr paddr := by
  rcases translatePieces_cases ran with ⟨whole, found, first, rfl⟩ | ⟨crossing, found, next, first, second, rfl⟩
  · have one : bytesOf [(found, 8)] = span found 8 := by simp [bytesOf]
    rw [one]
    constructor
    · intro same
      have heads := congrArg (·[0]?) same
      simp only [span_getElem? _ (show 0 < 8 by decide), Option.some.injEq, Nat.add_zero] at heads
      rw [BitVec.eq_of_toNat_eq heads] at first
      exact ⟨first, fun crossing => absurd crossing (by omega)⟩
    · intro smooth
      have equal := first.symm.trans smooth.first
      cases equal
      rfl
  · have two : bytesOf [(found, room vaddr), (next, 8 - room vaddr)] =
        span found (room vaddr) ++ span next (8 - room vaddr) := by simp [bytesOf]
    have positive := room_pos vaddr
    have total : room vaddr + (8 - room vaddr) = 8 := by omega
    have length : (span found (room vaddr)).length = room vaddr := by simp [span]
    rw [two]
    constructor
    · intro same
      have heads := congrArg (·[0]?) same
      have seconds := congrArg (·[room vaddr]?) same
      simp only [span_getElem? paddr (show 0 < 8 by decide), span_getElem? paddr crossing] at heads seconds
      rw [getElem?_append_left (by omega), span_getElem? _ positive] at heads
      rw [getElem?_append_right (by omega), length, Nat.sub_self, span_getElem? _ (by omega)] at seconds
      simp only [Option.some.injEq, Nat.add_zero] at heads seconds
      rw [BitVec.eq_of_toNat_eq heads] at first
      exact ⟨first, fun _ => ⟨next, second, seconds⟩⟩
    · intro smooth
      obtain ⟨_, mapped, after⟩ := smooth.second crossing
      have equal := first.symm.trans smooth.first
      have equalNext := second.symm.trans mapped
      cases equal
      cases equalNext
      rw [← span_append _ _ _ _ after, total]

theorem read_eq_map_span (store : Store) (paddr : Addr) (length : Nat) :
    store.read paddr.toNat length = (span paddr length).map store := by
  simp only [Store.read, span, map_map]
  rfl

theorem backs_iff {range : AddrRange} {length : Nat} (nonempty : 0 < length) :
    range.backs paddr length = true ↔ ∀ byte ∈ span paddr length, range.start.toNat ≤ byte ∧ byte < range.stop.toNat := by
  simp only [AddrRange.backs, span, Bool.and_eq_true, decide_eq_true_eq, mem_map, mem_range]
  constructor
  · rintro ⟨_, _⟩ byte ⟨_, _, rfl⟩
    omega
  · intro all
    have first := all paddr.toNat ⟨0, nonempty, rfl⟩
    have last := all (paddr.toNat + (length - 1)) ⟨length - 1, by omega, rfl⟩
    omega

theorem readPieces_ok {bytes : List Byte} (ran : readPieces mem parts = .ok bytes) (nonempty : ∀ part ∈ parts, 0 < part.2) :
    bytes = (bytesOf parts).map mem.pmem ∧
      ∀ byte ∈ bytesOf parts, mem.range.start.toNat ≤ byte ∧ byte < mem.range.stop.toNat := by
  induction parts generalizing bytes with
  | nil =>
    cases ran
    exact ⟨rfl, fun byte member => by cases member⟩
  | cons part rest ih =>
    obtain ⟨_, read, ran⟩ := of_bind ran
    obtain ⟨_, remaining, ran⟩ := of_bind ran
    cases ran
    obtain ⟨backed, rfl⟩ := hostRead_ok read
    obtain ⟨rfl, inside⟩ := ih remaining fun other member => nonempty other (mem_cons_of_mem _ member)
    have split : bytesOf (part :: rest) = span part.1 part.2 ++ bytesOf rest := rfl
    rw [split]
    refine ⟨by rw [read_eq_map_span, map_append], fun byte member => ?_⟩
    rcases mem_append.mp member with here | later
    · exact (backs_iff (nonempty part mem_cons_self)).mp backed byte here
    · exact inside byte later

theorem pieces_nonempty (ran : translatePieces mmu mode (pieces vaddr) = .ok parts) : ∀ part ∈ parts, 0 < part.2 := by
  have positive := room_pos vaddr
  intro part member
  rcases translatePieces_cases ran with ⟨_, _, _, rfl⟩ | ⟨_, _, _, _, _, rfl⟩
  · rw [mem_singleton.mp member]
    exact Nat.zero_lt_succ 7
  · rcases mem_cons.mp member with rfl | last
    · exact positive
    · rw [mem_singleton.mp last]
      show 0 < 8 - room vaddr
      omega

theorem load_smooth {loaded : Word × Effect} (smooth : Smooth mmu .read vaddr paddr) (ran : load mmu mem vaddr = .ok loaded) :
    loaded = (mem.pmem.word paddr.toNat, .read (span paddr 8)) ∧ mem.range.backs paddr 8 = true := by
  obtain ⟨_, translated, ran⟩ := of_bind ran
  obtain ⟨_, read, ran⟩ := of_bind ran
  rw [orFault, mapError_eq_ok] at translated
  rw [orAbort, mapError_eq_ok] at read
  have touched := (bytesOf_iff_smooth translated).mpr smooth
  obtain ⟨rfl, inside⟩ := readPieces_ok read (pieces_nonempty translated)
  rw [touched] at inside
  refine ⟨?_, (backs_iff (by decide)).mpr inside⟩
  have result := Except.ok.inj ran
  rw [← result, touched, ← read_eq_map_span]
  rfl

theorem load_effect {loaded : Word × Effect}
    (ran : load mmu mem vaddr = .ok loaded) (touched : loaded.2 = .read (span paddr 8)) : Smooth mmu .read vaddr paddr := by
  obtain ⟨_, translated, ran⟩ := of_bind ran
  obtain ⟨_, read, ran⟩ := of_bind ran
  rw [orFault, mapError_eq_ok] at translated
  have result := Except.ok.inj ran
  rw [← result] at touched
  exact (bytesOf_iff_smooth translated).mp (Effect.read.inj touched)

theorem loads_smooth (smooth : ∀ vaddr ∈ vaddrs, Smooth mmu .read vaddr (paddrOf mmu vaddr)) (ran : loads mmu mem vaddrs = .ok loaded) :
    loaded = vaddrs.map (fun vaddr => (mem.pmem.word (paddrOf mmu vaddr).toNat, .read (span (paddrOf mmu vaddr) 8))) ∧
      ∀ vaddr ∈ vaddrs, mem.range.backs (paddrOf mmu vaddr) 8 = true := by
  induction vaddrs generalizing loaded with
  | nil =>
    cases ran
    exact ⟨rfl, fun vaddr member => by cases member⟩
  | cons vaddr _ ih =>
    obtain ⟨_, here, ran⟩ := of_bind ran
    obtain ⟨_, remaining, ran⟩ := of_bind ran
    cases ran
    obtain ⟨rfl, backed⟩ := load_smooth (smooth vaddr mem_cons_self) here
    obtain ⟨rfl, inside⟩ := ih (fun other member => smooth other (mem_cons_of_mem _ member)) remaining
    refine ⟨rfl, fun other member => ?_⟩
    rcases mem_cons.mp member with rfl | later
    · exact backed
    · exact inside other later

theorem loads_effects (ran : loads mmu mem vaddrs = .ok loaded)
    (touched : loaded.map (·.2) = vaddrs.map fun vaddr => .read (span (paddrOf mmu vaddr) 8)) :
    ∀ vaddr ∈ vaddrs, Smooth mmu .read vaddr (paddrOf mmu vaddr) := by
  induction vaddrs generalizing loaded with
  | nil =>
    intro vaddr member
    cases member
  | cons _ _ ih =>
    obtain ⟨_, here, ran⟩ := of_bind ran
    obtain ⟨_, remaining, ran⟩ := of_bind ran
    cases ran
    obtain ⟨head, tail⟩ := List.cons.inj touched
    intro other member
    rcases mem_cons.mp member with rfl | later
    · exact load_effect here head
    · exact ih remaining tail other later

theorem loads_length (ran : loads mmu mem vaddrs = .ok loaded) : loaded.length = vaddrs.length := by
  induction vaddrs generalizing loaded with
  | nil =>
    cases ran
    rfl
  | cons _ _ ih =>
    obtain ⟨_, _, ran⟩ := of_bind ran
    obtain ⟨_, remaining, ran⟩ := of_bind ran
    cases ran
    rw [length_cons, length_cons, ih remaining]

theorem writePieces_smooth {next : AbstractMemory} {value : Word}
    (translated : translatePieces mmu .write (pieces vaddr) = .ok parts) (smooth : Smooth mmu .write vaddr paddr)
    (ran : writePieces mem parts (leBytes 8 value.toNat) = .ok next) :
    next = { mem with pmem := mem.pmem.setWord paddr.toNat value } ∧ mem.range.backs paddr 8 = true := by
  have width := leBytes_length 8 value.toNat
  rcases translatePieces_cases translated with ⟨whole, found, first, rfl⟩ | ⟨crossing, found, other, first, second, rfl⟩
  · cases first.symm.trans smooth.first
    obtain ⟨written, write, ran⟩ := of_bind ran
    cases ran
    exact (setHostWord_ok write).symm
  · obtain ⟨_, sameMap, after⟩ := smooth.second crossing
    cases first.symm.trans smooth.first
    cases second.symm.trans sameMap
    obtain ⟨_, lower, ran⟩ := of_bind ran
    obtain ⟨written, upper, ran⟩ := of_bind ran
    cases ran
    obtain ⟨lowBacked, rfl⟩ := hostWrite_ok lower
    obtain ⟨highBacked, rfl⟩ := hostWrite_ok upper
    have low : ((leBytes 8 value.toNat).take (room vaddr)).length = room vaddr := by
      rw [length_take]
      omega
    have high : ((leBytes 8 value.toNat).drop (room vaddr)).take (8 - room vaddr) = (leBytes 8 value.toNat).drop (room vaddr) := by
      apply take_of_length_le
      rw [length_drop]
      omega
    rw [high] at highBacked ⊢
    refine ⟨?_, ?_⟩
    · have joined := Store.write_append mem.pmem paddr.toNat ((leBytes 8 value.toNat).take (room vaddr))
        ((leBytes 8 value.toNat).drop (room vaddr))
      rw [take_append_drop, low, ← after] at joined
      rw [Store.setWord, joined]
    · rw [length_drop, width] at highBacked
      simp only [AddrRange.backs, Bool.and_eq_true, decide_eq_true_eq] at lowBacked highBacked ⊢
      omega

theorem physicals_ok (ran : physicals mmu vaddrs = .ok paddrs) :
    paddrs = vaddrs.map (paddrOf mmu) ∧ ∀ vaddr ∈ vaddrs, mmu vaddr .read = .ok (paddrOf mmu vaddr) := by
  induction vaddrs generalizing paddrs with
  | nil =>
    cases ran
    exact ⟨rfl, fun vaddr member => by cases member⟩
  | cons vaddr _ ih =>
    obtain ⟨first, here, ran⟩ := of_bind ran
    obtain ⟨_, remaining, ran⟩ := of_bind ran
    cases ran
    obtain ⟨rfl, mapped⟩ := ih remaining
    have found : mmu vaddr .read = .ok first := by
      unfold physical at here
      split at here
      next paddr translated =>
        cases here
        exact translated
      · cases here
    have same : paddrOf mmu vaddr = first := by rw [paddrOf, found]
    refine ⟨by rw [map_cons, same], fun other member => ?_⟩
    rcases mem_cons.mp member with rfl | later
    · rw [found, same]
    · exact mapped other later

theorem physicals_eq (mapped : ∀ vaddr ∈ vaddrs, mmu vaddr .read = .ok (paddrOf mmu vaddr)) :
    physicals mmu vaddrs = .ok (vaddrs.map (paddrOf mmu)) := by
  induction vaddrs with
  | nil => rfl
  | cons vaddr _ ih =>
    have here : physical mmu vaddr = .ok (paddrOf mmu vaddr) := by
      rw [physical, mapped vaddr mem_cons_self]
    rw [physicals, here, ok_bind, ih fun other member => mapped other (mem_cons_of_mem _ member)]
    rfl

theorem operandBytes (paddrs : List Addr) (position : Nat) (inside : position < paddrs.length) :
    ((paddrs.flatMap fun paddr => leBytes 8 paddr.toNat).drop (8 * position)).take 8 =
      leBytes 8 (paddrs.getD position 0).toNat := by
  induction paddrs generalizing position with
  | nil => cases inside
  | cons paddr _ ih =>
    have width := leBytes_length 8 paddr.toNat
    rw [flatMap_cons]
    cases position with
    | zero => exact take_left' width
    | succ position =>
      rw [drop_append, width, drop_of_length_le (by omega), nil_append]
      have shift : 8 * (position + 1) - 8 = 8 * position := by omega
      rw [shift, ih position (by simpa using inside), getD_cons_succ]

theorem address_imcPacket (request : Nat) (op : ImcOp) {position : Nat}
    (inside : position < paddrs.length) : address (imcPacket request op paddrs) position = paddrs.getD position 0 := by
  have bytes := operandBytes paddrs position inside
  have data : (imcPacket request op paddrs).data = paddrs.flatMap fun paddr => leBytes 8 paddr.toNat := rfl
  rw [address, data, bytes]
  exact Store.ofNat_leBytes _

theorem imcPacket_length (request : Nat) (op : ImcOp) (paddrs : List Addr) :
    (imcPacket request op paddrs).data.length = 8 * paddrs.length := by
  have data : (imcPacket request op paddrs).data = paddrs.flatMap fun paddr => leBytes 8 paddr.toNat := rfl
  rw [data, length_flatMap]
  simp only [leBytes_length, map_const', sum_replicate_nat]
  omega

theorem sources_length (inst : ImcInst) (regs : RegFile) : (inst.sources regs).length = arity inst.op := by
  obtain ⟨op, _⟩ := inst
  cases op <;> rfl

structure Idle (ctrl : MemCtrl) : Prop where
  fresh : ctrl.retryReq = false
  idle : ctrl.isBusy = false
  unscheduled : ctrl.releaseEvent = none

theorem effectsOf_computed (pkt : Packet) (op : ImcOp) (request : Nat) (effects : List Effect) :
    effectsOf ([.accepted pkt, .computed op request] ++ effects.map .effect) = effects := by
  simp only [effectsOf, filterMap_append, filterMap_map]
  have own : (effects.filterMap fun effect => some effect) = effects := filterMap_some
  exact own

theorem outcome_eq (idle : Idle ctrl)
    (translated : physicals mmu (inst.sources regs ++ [inst.destination regs]) = .ok paddrs) (request : Nat) (now : Tick)
    (random : Nat) : inst.outcome mmu regs request ctrl now random =
      AbstractMemory.handler inst.op ctrl.mem (imcPacket request inst.op paddrs) >>= fun done =>
        .ok ⟨none, done.1.pmem, done.2⟩ := by
  have accepts : Accepts ctrl (imcPacket request inst.op paddrs) := ⟨idle.fresh, idle.idle, rfl, rfl⟩
  have path : pathOf (imcPacket request inst.op paddrs).req.flags = .inMemory inst.op := by
    have flag : (imcPacket request inst.op paddrs).req.flags = inst.op.flag := rfl
    rw [flag, pathOf, dispatch_flag]
    rfl
  obtain ⟨_, occupied⟩ := occupy_ok idle.unscheduled now (imcPacket request inst.op paddrs)
  have same := (occupy_same occupied).mem
  have packed : inst.packet mmu regs request = .ok (imcPacket request inst.op paddrs) := by
    rw [ImcInst.packet, translated]
    rfl
  rw [ImcInst.outcome, ImcInst.execute, packed, ok_bind, recvTimingReq_serve accepts, path, serve, occupied, ok_bind]
  dsimp only
  rw [same]
  cases AbstractMemory.handler inst.op ctrl.mem (imcPacket request inst.op paddrs) with
  | error => rfl
  | ok done =>
    have listed := effectsOf_computed (imcPacket request inst.op paddrs) inst.op request done.2
    exact congrArg (fun effects => Except.ok (Outcome.mk none done.1.pmem effects)) listed

/-- The operands translate, and the destination can be written. -/
structure Mapped (mmu : Translation φ) (regs : RegFile) (inst : ImcInst) (mem : AbstractMemory) : Prop where
  sources : ∀ vaddr ∈ inst.sources regs, ∃ paddr, Smooth mmu .read vaddr paddr
  destination : ∃ paddr, Smooth mmu .write (inst.destination regs) paddr ∧ mmu (inst.destination regs) .read = .ok paddr
  writeable : mem.writeable = true

theorem smooth_paddrOf (smooth : Smooth mmu .read vaddr paddr) : Smooth mmu .read vaddr (paddrOf mmu vaddr) := by
  have same : paddrOf mmu vaddr = paddr := by rw [paddrOf, smooth.first]
  rw [same]
  exact smooth

theorem footprint_imcPacket (inst : ImcInst) (regs : RegFile) (request : Nat) :
    footprint inst.op (imcPacket request inst.op ((inst.sources regs ++ [inst.destination regs]).map (paddrOf mmu))) =
      (inst.sources regs).map (fun vaddr => .read (span (paddrOf mmu vaddr) 8)) ++
        [.wrote (span (paddrOf mmu (inst.destination regs)) 8)] := by
  obtain ⟨op, _⟩ := inst
  cases op <;> simp [footprint, arity, range_succ, ImcInst.sources, ternaryOp, address_imcPacket]

theorem address_destination (inst : ImcInst) (regs : RegFile) (request : Nat) :
    address (imcPacket request inst.op ((inst.sources regs ++ [inst.destination regs]).map (paddrOf mmu)))
      (arity inst.op) = paddrOf mmu (inst.destination regs) := by
  obtain ⟨op, _⟩ := inst
  cases op <;> simp [arity, ImcInst.sources, ternaryOp, address_imcPacket]

theorem fits_imcPacket (request : Nat)
    (backed : ∀ vaddr ∈ inst.sources regs ++ [inst.destination regs], mem.range.backs (paddrOf mmu vaddr) 8 = true) :
    Fits inst.op mem (imcPacket request inst.op ((inst.sources regs ++ [inst.destination regs]).map (paddrOf mmu))) := by
  have length : ((inst.sources regs ++ [inst.destination regs]).map (paddrOf mmu)).length = arity inst.op + 1 := by
    rw [length_map, length_append, sources_length]
    rfl
  refine ⟨Nat.le_of_eq (by rw [imcPacket_length, length]), fun position _ => ?_⟩
  have inside : position < ((inst.sources regs ++ [inst.destination regs]).map (paddrOf mmu)).length := by omega
  rw [address_imcPacket _ _ inside, getD_eq_getElem _ _ inside]
  obtain ⟨vaddr, member, same⟩ := mem_map.mp (getElem_mem inside)
  rw [← same]
  exact backed vaddr member

theorem compute_congr {op : ImcOp} {first second : Nat → Word}
    (same : ∀ position < arity op, first position = second position) : compute op first = compute op second := by
  cases op <;> simp only [arity] at same <;> simp [compute, same]

theorem result_imcPacket (mmu : Translation φ) (inst : ImcInst) (regs : RegFile) (request : Nat) (mem : AbstractMemory) :
    result inst.op mem (imcPacket request inst.op ((inst.sources regs ++ [inst.destination regs]).map (paddrOf mmu))) =
      compute inst.op fun position =>
        ((inst.sources regs).map fun vaddr => mem.pmem.word (paddrOf mmu vaddr).toNat).getD position 0 := by
  apply compute_congr
  intro position inside
  have within : position < (inst.sources regs).length := by rw [sources_length]; exact inside
  rw [address_imcPacket _ _ (by simp; omega)]
  simp [getD_eq_getElem?_getD, getElem?_append_left, within]

theorem orAbort_not_fault {α : Type} {result : Except Abort α} {fault : φ} : orAbort result ≠ .error (.fault fault) := by
  cases result <;> intro impossible <;> cases impossible

theorem orFault_not_error {α : Type} {result : Except φ α} {value : α} (found : result = .ok value) (stop : Stop φ) :
    orFault result ≠ .error stop := by
  rw [found]
  intro impossible
  cases impossible

theorem load_not_fault (smooth : Smooth mmu .read vaddr paddr) (fault : φ) : load mmu mem vaddr ≠ .error (.fault fault) := by
  obtain ⟨_, translated⟩ := translatePieces_smooth smooth
  intro failed
  rcases bind_eq_error.mp failed with translation | ⟨_, _, failed⟩
  · exact orFault_not_error translated _ translation
  · rcases bind_eq_error.mp failed with reading | ⟨_, _, impossible⟩
    · exact orAbort_not_fault reading
    · cases impossible

theorem loads_not_fault (smooth : ∀ vaddr ∈ vaddrs, ∃ paddr, Smooth mmu .read vaddr paddr) (fault : φ) :
    loads mmu mem vaddrs ≠ .error (.fault fault) := by
  induction vaddrs with
  | nil =>
    intro impossible
    cases impossible
  | cons vaddr _ ih =>
    intro failed
    obtain ⟨paddr, here⟩ := smooth vaddr mem_cons_self
    rcases bind_eq_error.mp failed with first | ⟨_, _, failed⟩
    · exact load_not_fault here fault first
    · rcases bind_eq_error.mp failed with others | ⟨_, _, impossible⟩
      · exact ih (fun other member => smooth other (mem_cons_of_mem _ member)) others
      · cases impossible

theorem store_not_fault {value : Word}
    (smooth : Smooth mmu .write vaddr paddr) (fault : φ) : store mmu mem vaddr value ≠ .error (.fault fault) := by
  obtain ⟨_, translated⟩ := translatePieces_smooth smooth
  intro failed
  rcases bind_eq_error.mp failed with translation | ⟨_, _, failed⟩
  · exact orFault_not_error translated _ translation
  · split at failed
    · rcases bind_eq_error.mp failed with writing | ⟨_, _, impossible⟩
      · exact orAbort_not_fault writing
      · cases impossible
    · cases failed

theorem loadComputeStore_not_fault
    (mapped : Mapped mmu regs inst mem) (fault : φ) : inst.loadComputeStore mmu regs mem ≠ .error (.fault fault) := by
  intro failed
  obtain ⟨_, smooth, _⟩ := mapped.destination
  rcases bind_eq_error.mp failed with loading | ⟨loaded, _, failed⟩
  · exact loads_not_fault mapped.sources fault loading
  · rcases bind_eq_error.mp failed with computing | ⟨value, _, failed⟩
    · exact orAbort_not_fault computing
    · rcases bind_eq_error.mp failed with storing | ⟨_, _, impossible⟩
      · exact store_not_fault smooth fault storing
      · cases impossible

theorem loadComputeStore_ok {next : AbstractMemory} {effects : List Effect}
    (ran : inst.loadComputeStore mmu regs mem = .ok (next, effects)) :
    ∃ loaded value parts, loads mmu mem (inst.sources regs) = .ok loaded ∧
      compute inst.op (fun position => (loaded.map (·.1)).getD position 0) = .ok value ∧
      translatePieces mmu .write (pieces (inst.destination regs)) = .ok parts ∧
      if mem.writeable = true then
        writePieces mem parts (leBytes 8 value.toNat) = .ok next ∧ effects = loaded.map (·.2) ++ [.wrote (bytesOf parts)]
      else next = mem ∧ effects = loaded.map (·.2) := by
  obtain ⟨loaded, loading, ran⟩ := of_bind ran
  obtain ⟨value, computing, ran⟩ := of_bind ran
  obtain ⟨⟨_, _⟩, storing, ran⟩ := of_bind ran
  cases ran
  obtain ⟨parts, translated, storing⟩ := of_bind storing
  rw [orAbort, mapError_eq_ok] at computing
  rw [orFault, mapError_eq_ok] at translated
  refine ⟨loaded, value, parts, loading, computing, translated, ?_⟩
  split at storing
  next writeable =>
    obtain ⟨_, writing, storing⟩ := of_bind storing
    rw [orAbort, mapError_eq_ok] at writing
    cases storing
    rw [if_pos writeable]
    exact ⟨writing, rfl⟩
  next readOnly =>
    cases storing
    rw [if_neg readOnly]
    exact ⟨rfl, append_nil _⟩

theorem outcome_of_mapped {reached : Outcome φ} (idle : Idle ctrl)
    (mapped : Mapped mmu regs inst ctrl.mem) (ran : inst.reference mmu regs ctrl.mem = .ok reached) (request : Nat)
    (now : Tick) (random : Nat) : inst.outcome mmu regs request ctrl now random = .ok reached := by
  have smooth : ∀ vaddr ∈ inst.sources regs, Smooth mmu .read vaddr (paddrOf mmu vaddr) := by
    intro vaddr member
    obtain ⟨paddr, here⟩ := mapped.sources vaddr member
    exact smooth_paddrOf here
  obtain ⟨paddr, target, readable⟩ := mapped.destination
  have same : paddrOf mmu (inst.destination regs) = paddr := by rw [paddrOf, readable]
  have translated : physicals mmu (inst.sources regs ++ [inst.destination regs]) =
      .ok ((inst.sources regs ++ [inst.destination regs]).map (paddrOf mmu)) := by
    apply physicals_eq
    intro vaddr member
    rcases mem_concat.mp member with source | last
    · exact (smooth vaddr source).first
    · rw [last, same, readable]
  unfold ImcInst.reference at ran
  split at ran
  next next effects done =>
    cases ran
    obtain ⟨_, value, _, loading, computing, pieced, stored⟩ := loadComputeStore_ok done
    rw [if_pos mapped.writeable] at stored
    obtain ⟨writing, rfl⟩ := stored
    obtain ⟨rfl, backed⟩ := loads_smooth smooth loading
    obtain ⟨rfl, targetBacked⟩ := writePieces_smooth pieced target writing
    have allBacked : ∀ vaddr ∈ inst.sources regs ++ [inst.destination regs], ctrl.mem.range.backs (paddrOf mmu vaddr) 8 = true := by
      intro vaddr member
      rcases mem_concat.mp member with source | last
      · exact backed vaddr source
      · rw [last, same]
        exact targetBacked
    have fits := fits_imcPacket request allBacked
    have words := result_imcPacket mmu inst regs request ctrl.mem
    rw [map_map] at computing
    rw [outcome_eq idle translated, handler_eq fits, words]
    have computed : compute inst.op (fun position =>
        ((inst.sources regs).map fun vaddr => ctrl.mem.pmem.word (paddrOf mmu vaddr).toNat).getD position 0) = .ok value :=
      computing
    rw [computed, ok_bind, ok_bind, footprint_imcPacket, stored, address_destination, same,
      (bytesOf_iff_smooth pieced).mpr target, map_map]
    rfl
  next fault done => exact absurd done (loadComputeStore_not_fault mapped fault)
  · cases ran

theorem mapped_of_outcome {reached : Outcome φ} (idle : Idle ctrl)
    (ran : inst.reference mmu regs ctrl.mem = .ok reached) {request : Nat} {now : Tick} {random : Nat}
    (same : inst.outcome mmu regs request ctrl now random = .ok reached) : Mapped mmu regs inst ctrl.mem := by
  have translated : ∃ paddrs, physicals mmu (inst.sources regs ++ [inst.destination regs]) = .ok paddrs := by
    obtain ⟨_, executed, _⟩ := of_bind same
    obtain ⟨_, packed, _⟩ := of_bind executed
    obtain ⟨paddrs, physical, _⟩ := of_bind packed
    exact ⟨paddrs, physical⟩
  obtain ⟨paddrs, translated⟩ := translated
  rw [outcome_eq idle translated] at same
  obtain ⟨rfl, readable⟩ := physicals_ok translated
  obtain ⟨⟨_, effects⟩, handled, same⟩ := of_bind same
  obtain ⟨_, _, _, _, rfl⟩ := handler_ok handled
  cases same
  unfold ImcInst.reference at ran
  split at ran
  next next made done =>
    have equal := congrArg Outcome.effects (Except.ok.inj ran)
    rw [footprint_imcPacket] at equal
    obtain ⟨_, _, _, loading, _, pieced, stored⟩ := loadComputeStore_ok done
    have length := loads_length loading
    split at stored
    next writeable =>
      rw [stored.2] at equal
      obtain ⟨reads, write⟩ := append_inj equal (by rw [length_map, length_map, length])
      have target := (bytesOf_iff_smooth pieced).mp (Effect.wrote.inj (List.cons.inj write).1)
      refine ⟨fun vaddr member => ⟨_, loads_effects loading reads vaddr member⟩, ⟨_, target, ?_⟩, writeable⟩
      exact readable _ (mem_append_cons_self)
    next readOnly =>
      rw [stored.2] at equal
      have lengths := congrArg List.length equal
      simp only [length_map, length_append, length, length_singleton] at lengths
      omega
  next fault done => cases ran
  · cases ran

/-- Where the sequence has an outcome, the instruction has the same one exactly if every
source is smooth for reading and the destination is smooth for writing and maps to the
same address for reading. -/
theorem refines_iff {regs : RegFile} {inst : ImcInst} {ctrl : MemCtrl} {reached : Outcome φ} (idle : Idle ctrl)
    (ran : inst.reference mmu regs ctrl.mem = .ok reached) (request : Nat) (now : Tick) (random : Nat) :
    inst.outcome mmu regs request ctrl now random = .ok reached ↔ Mapped mmu regs inst ctrl.mem :=
  ⟨mapped_of_outcome idle ran, fun mapped => outcome_of_mapped idle mapped ran request now random⟩

def compareInst : ImcInst := ⟨.cmpimc, 1, 2, 0, 3⟩

def compareRegs : RegFile := fun index => if index = 1 then 4092 else if index = 2 then 16 else 24

def threePages : MemCtrl :=
  { idleMemory with mem := { idleMemory.mem with
      range := ⟨0, 0x3000⟩
      pmem := fun paddr => if paddr = 0 then 1 else 0 } }

theorem flat_refined : ∃ reached, compareInst.reference (flatMapping 0) compareRegs threePages.mem = .ok reached ∧
    compareInst.outcome (flatMapping 0) compareRegs 1 threePages 0 0 = .ok reached := by
  have flat : ∀ vaddr ∈ [(4092 : Addr), 16, 24], ∀ mode, Smooth (flatMapping 0) mode vaddr vaddr := by
    intro vaddr member mode
    refine ⟨rfl, fun _ => ⟨_, rfl, ?_⟩⟩
    simp only [mem_cons, not_mem_nil, or_false] at member
    rcases member with rfl | rfl | rfl <;> decide
  have mapped : Mapped (flatMapping 0) compareRegs compareInst threePages.mem := by
    refine ⟨fun vaddr member => ⟨vaddr, flat vaddr ?_ .read⟩, ⟨24, flat 24 (by decide) .write, rfl⟩, rfl⟩
    exact mem_append_left [24] member
  exact ⟨_, rfl, (refines_iff ⟨rfl, rfl, rfl⟩ rfl 1 0 0).mpr mapped⟩

def readOnlyMapping : Translation Unit := fun vaddr mode =>
  match mode with
  | .read => .ok vaddr
  | .write => .error ()

def swappedMapping : Translation Unit := fun vaddr _ =>
  .ok (if vaddr.toNat < 4096 then vaddr + 4096 else if vaddr.toNat < 8192 then vaddr - 4096 else vaddr)

/-- On a read-only page the sequence faults and the instruction writes; over a page
boundary the sequence reads 2^32 and writes 0 where the instruction reads 0 and writes 1;
and an unmapped operand stops the simulator instead of faulting. -/
theorem translation_not_refined :
    ((compareInst.reference readOnlyMapping compareRegs threePages.mem).map fun reached => (reached.fault, reached.pmem 24)) =
        .ok (some (), 0) ∧
      ((compareInst.outcome readOnlyMapping compareRegs 1 threePages 0 0).map fun reached => (reached.fault, reached.pmem 24)) =
        .ok (none, 1) ∧
      ((compareInst.reference swappedMapping compareRegs threePages.mem).map fun reached => (reached.fault, reached.pmem 4120)) =
        .ok (none, 0) ∧
      ((compareInst.outcome swappedMapping compareRegs 1 threePages 0 0).map fun reached => (reached.fault, reached.pmem 4120)) =
        .ok (none, 1) ∧
      ((compareInst.reference (fun _ _ => .error ()) compareRegs threePages.mem).map (·.fault)) = .ok (some ()) ∧
      ((compareInst.outcome (fun _ _ => .error ()) compareRegs 1 threePages 0 0).map fun reached : Outcome Unit => reached.fault) =
        .error (.assertion "hasPaddr()") :=
  ⟨rfl, by decide, by decide, by decide, rfl, rfl⟩

end ImcGem5.Isa.Proofs
